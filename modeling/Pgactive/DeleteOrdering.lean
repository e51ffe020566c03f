import Pgactive.RowHistory
import Mathlib.Data.Fintype.Basic

/-!
# Deletes that overtake inserts

A row is inserted by one node and deleted by another one, and a third node may receive the delete
first. `process_remote_delete` then ignores it, and the insert that arrives later stays. The row is
gone everywhere in the runs in which no delete overtakes the insert.
-/

namespace Pgactive

open BroadcastLog Transition

section Conditions

variable {ν D : Type} [DecidableEq D]

def Change.inserts (ix : Index D) (key : List (Option D)) : Change D → Bool
  | .insert new => decide (ix.key (new.map Datum.value) = key)
  | _ => false

def Change.deletes (ix : Index D) (desc : List Attribute) (key : List (Option D))
    (ch : Change D) : Bool :=
  ch.isDelete && decide (ch.scanKey ix desc = key)

def NoneLogged (p : Change D → Bool) (s : Cluster ν D) : Prop :=
  ∀ w, ∀ c ∈ s.net.log w, p c.change = false

def InsertDeleteStep (cfg : Config ν D) (ix : Index D) (key : List (Option D))
    (s : Cluster ν D) : Action ν D → Prop
  | .insert _ _ new => ix.key (new.map Datum.value) = key → NoneLogged (·.inserts ix key) s
  | .update _ _ k new => k ≠ key ∧ ix.key (new.map Datum.value) ≠ key
  | .delete _ _ k => k = key → NoneLogged (·.deletes ix cfg.rel.desc key) s
  | .deliver _ _ => True

instance [Fintype ν] (p : Change D → Bool) (s : Cluster ν D) : Decidable (NoneLogged p s) :=
  inferInstanceAs (Decidable (∀ _, ∀ _ ∈ _, _ = _))

instance [Fintype ν] (cfg : Config ν D) (ix : Index D) (key : List (Option D)) (s : Cluster ν D)
    (a : Action ν D) : Decidable (InsertDeleteStep cfg ix key s a) := by
  rcases a <;> unfold InsertDeleteStep <;> infer_instance

variable [DecidableEq ν]

def KnowsInsert (ix : Index D) (key : List (Option D)) (net : Net ν (Commit D)) (r : ν) : Prop :=
  ∃ v, ∃ c ∈ net.seenBy r v, c.change.inserts ix key = true

def InsertFirst (cfg : Config ν D) (ix : Index D) (key : List (Option D)) (s : Cluster ν D) :
    Action ν D → Prop
  | .deliver r w => ∀ c ∈ s.net.next r w, c.change.deletes ix cfg.rel.desc key = true →
      KnowsInsert ix key s.net r
  | _ => True

instance [Fintype ν] (ix : Index D) (key : List (Option D)) (net : Net ν (Commit D)) (r : ν) :
    Decidable (KnowsInsert ix key net r) :=
  inferInstanceAs (Decidable (∃ _, ∃ _ ∈ _, _ = _))

instance [Fintype ν] (cfg : Config ν D) (ix : Index D) (key : List (Option D)) (s : Cluster ν D)
    (a : Action ν D) : Decidable (InsertFirst cfg ix key s a) := by
  rcases a <;> unfold InsertFirst <;> infer_instance

/-- Nobody has the row and nothing has been written yet. -/
def NoRow (cfg : Config ν D) (ix : Index D) (key : List (Option D)) (s : Cluster ν D) : Prop :=
  s.net = Net.empty ∧ (∀ i, ValidTable cfg.rel ix (s.tables i)) ∧
    ∀ i, ix.versions key (s.tables i) = []

/-- What every run maintains in which no delete overtakes the insert. -/
structure InsertedOnce (cfg : Config ν D) (ix : Index D) (key : List (Option D))
    (s : Cluster ν D) : Prop extends Sound cfg ix s where
  once : ∀ (w w' : ν) (i j : ℕ) (c c' : Commit D), (s.net.log w)[i]? = some c →
    (s.net.log w')[j]? = some c' →
    c.change.inserts ix key = true → c'.change.inserts ix key = true → w = w' ∧ i = j
  foreign : ∀ w, ∀ c ∈ s.net.log w, ∀ new ∈ c.change.updated,
    c.change.scanKey ix cfg.rel.desc ≠ key ∧ ix.key (new.map Datum.value) ≠ key
  present : ∀ r, ix.versions key (s.tables r) ≠ [] → KnowsInsert ix key s.net r
  /-- A node that knows the delete knows the insert and does not have the row. -/
  deleted : ∀ r w, ∀ c ∈ s.net.seenBy r w, c.change.deletes ix cfg.rel.desc key = true →
    KnowsInsert ix key s.net r ∧ ix.versions key (s.tables r) = []

variable {cfg : Config ν D} {ix : Index D} {key : List (Option D)} {s s' : Cluster ν D}

variable {r : ν}

theorem KnowsInsert.mono {net net' : Net ν (Commit D)} (h : KnowsInsert ix key net r)
    (hsub : ∀ v, net.seenBy r v ⊆ net'.seenBy r v) : KnowsInsert ix key net' r := by
  obtain ⟨v, c, hc, hins⟩ := h
  exact ⟨v, c, hsub v hc, hins⟩

variable {w : ν} {c : Commit D}

theorem InsertedOnce.next_not_inserts (h : InsertedOnce cfg ix key s)
    (hknows : KnowsInsert ix key s.net r) (hrw : r ≠ w) (hnext : s.net.next r w = some c) :
    c.change.inserts ix key = false := by
  by_contra hins
  rw [Bool.not_eq_false] at hins
  obtain ⟨v, c', hc', hins'⟩ := hknows
  by_cases hv : v = r
  · subst hv
    obtain ⟨i, hi⟩ := List.mem_iff_getElem?.mp (s.net.seenBy_subset v v hc')
    exact hrw (h.once v w i _ c' c hi hnext hins' hins).1
  · rw [Net.seenBy, if_neg hv] at hc'
    obtain ⟨i, hi, rfl⟩ := List.mem_take_iff_getElem.mp hc'
    obtain ⟨rfl, hpos⟩ := h.once v w i _ _ c (List.getElem?_eq_getElem (by omega)) hnext hins' hins
    omega

variable {rows : List (StoredTuple ν D)}

theorem InsertedOnce.learn (h : InsertedOnce cfg ix key s) {net : Net ν (Commit D)}
    (hmono : ∀ j v, s.net.seenBy j v ⊆ net.seenBy j v)
    (hlearn : ∀ j v c', c' ∈ net.seenBy j v → c' ∈ s.net.seenBy j v ∨ j = r ∧ c' = c)
    (hc : c ∈ net.seenBy r w)
    (hsecond : KnowsInsert ix key s.net r → c.change.inserts ix key = false)
    (hgrow : c.change.inserts ix key = false → ix.versions key (s.tables r) = [] →
      ix.versions key rows = [])
    (hdel : c.change.deletes ix cfg.rel.desc key = true →
      KnowsInsert ix key s.net r ∧ ix.versions key rows = []) :
    (∀ j, ix.versions key (Function.update s.tables r rows j) ≠ [] → KnowsInsert ix key net j) ∧
      ∀ j v, ∀ c' ∈ net.seenBy j v, c'.change.deletes ix cfg.rel.desc key = true →
        KnowsInsert ix key net j ∧ ix.versions key (Function.update s.tables r rows j) = [] := by
  constructor
  · intro j hj
    by_cases hjr : j = r
    · subst hjr
      rw [Function.update_self] at hj
      cases hins : c.change.inserts ix key with
      | true => exact ⟨w, c, hc, hins⟩
      | false => exact (h.present j fun hnil => hj (hgrow hins hnil)).mono (hmono j)
    · rw [Function.update_of_ne hjr] at hj
      exact (h.present j hj).mono (hmono j)
  · intro j v c' hc' hdel'
    rcases hlearn j v c' hc' with hold | ⟨rfl, rfl⟩
    · obtain ⟨hknows, hnil⟩ := h.deleted j v c' hold hdel'
      refine ⟨hknows.mono (hmono j), ?_⟩
      by_cases hjr : j = r
      · subst hjr
        rw [Function.update_self]
        exact hgrow (hsecond hknows) hnil
      · rwa [Function.update_of_ne hjr]
    · rw [Function.update_self]
      exact ⟨(hdel hdel').1.mono (hmono j), (hdel hdel').2⟩

theorem InsertedOnce.localWrite (h : InsertedOnce cfg ix key s) {i : ν}
    (hsound : Sound cfg ix ⟨Function.update s.tables i rows, s.net.append i [c]⟩)
    (honce : c.change.inserts ix key = true → NoneLogged (·.inserts ix key) s)
    (hforeign : ∀ new ∈ c.change.updated,
      c.change.scanKey ix cfg.rel.desc ≠ key ∧ ix.key (new.map Datum.value) ≠ key)
    (hgrow : c.change.inserts ix key = false → ix.versions key (s.tables i) = [] →
      ix.versions key rows = [])
    (hdel : c.change.deletes ix cfg.rel.desc key = true →
      KnowsInsert ix key s.net i ∧ ix.versions key rows = []) :
    InsertedOnce cfg ix key ⟨Function.update s.tables i rows, s.net.append i [c]⟩ := by
  have hlearn : ∀ r v c', c' ∈ (s.net.append i [c]).seenBy r v →
      c' ∈ s.net.seenBy r v ∨ r = i ∧ c' = c := by
    intro r v c' hc'
    refine (h.bounded.mem_seenBy_append_iff.mp hc').imp_right ?_
    rintro ⟨⟨-, hr⟩, hc⟩
    exact ⟨hr, List.mem_singleton.mp hc⟩
  -- A second insert would contradict that the node knows the first one.
  have hsecond : KnowsInsert ix key s.net i → c.change.inserts ix key = false := by
    rintro ⟨v, c', hc', hins'⟩
    by_contra hins
    rw [Bool.not_eq_false] at hins
    simp [honce hins v c' (s.net.seenBy_subset i v hc')] at hins'
  obtain ⟨hpresent, hdeleted⟩ := h.learn (fun r v => h.bounded.seenBy_subset_append i [c] r v)
    hlearn (s.net.mem_seenBy_append i c) hsecond hgrow hdel
  refine ⟨hsound, ?_, ?_, hpresent, hdeleted⟩
  · intro w w' k k' c₁ c₂ h₁ h₂ hins₁ hins₂
    rcases Net.getElem?_log_append.mp h₁ with hold₁ | ⟨rfl, rfl, rfl⟩
    · rcases Net.getElem?_log_append.mp h₂ with hold₂ | ⟨rfl, rfl, rfl⟩
      · exact h.once w w' k k' c₁ c₂ hold₁ hold₂ hins₁ hins₂
      · simp [honce hins₂ w c₁ (List.mem_of_getElem? hold₁)] at hins₁
    · rcases Net.getElem?_log_append.mp h₂ with hold₂ | ⟨rfl, rfl, rfl⟩
      · simp [honce hins₁ w' c₂ (List.mem_of_getElem? hold₂)] at hins₂
      · exact ⟨rfl, rfl⟩
  · intro w c' hc'
    rcases Net.mem_log_append.mp hc' with hold | ⟨-, hc'⟩
    · exact h.foreign w c' hold
    · rw [List.mem_singleton.mp hc']
      exact hforeign

theorem InsertedOnce.delivery (h : InsertedOnce cfg ix key s) (hrw : r ≠ w)
    (hnext : s.net.next r w = some c)
    (hsound : Sound cfg ix ⟨Function.update s.tables r rows, s.net.advance r w⟩)
    (hgrow : c.change.inserts ix key = false → ix.versions key (s.tables r) = [] →
      ix.versions key rows = [])
    (hdel : c.change.deletes ix cfg.rel.desc key = true →
      KnowsInsert ix key s.net r ∧ ix.versions key rows = []) :
    InsertedOnce cfg ix key ⟨Function.update s.tables r rows, s.net.advance r w⟩ := by
  have hlearn : ∀ j v c', c' ∈ (s.net.advance r w).seenBy j v →
      c' ∈ s.net.seenBy j v ∨ j = r ∧ c' = c := by
    intro j v c' hc'
    refine ((Net.mem_seenBy_advance_iff hrw hnext).mp hc').imp_right ?_
    rintro ⟨⟨hj, -⟩, hc⟩
    exact ⟨hj, hc⟩
  obtain ⟨hpresent, hdeleted⟩ := h.learn (fun j v => Net.seenBy_subset_advance hrw hnext j v)
    hlearn (Net.mem_seenBy_advance hrw hnext)
    (fun hknows => h.next_not_inserts hknows hrw hnext) hgrow hdel
  exact ⟨hsound, h.once, h.foreign, hpresent, hdeleted⟩

omit [DecidableEq ν] in
theorem Index.not_selects_of_key_ne {u : StoredTuple ν D} (h : ix.key u.values ≠ key) :
    ix.selects key u = false := by
  by_contra hsel
  rw [Bool.not_eq_false] at hsel
  exact h (selects_iff.mp hsel).2

omit [DecidableEq ν] in
theorem Sound.key_merged (h : Sound cfg ix s) (hplain : ix.expressions = []) {tid : ℕ} {ts : ℤ}
    {old : Option (List (Datum D))} {new : List (Datum D)} {t : StoredTuple ν D}
    (hc : ⟨ts, .update old new⟩ ∈ s.net.log w)
    (hfind : ix.findPkeyTuple ((Change.update old new).scanKey ix cfg.rel.desc) (s.tables r) =
      some (tid, t)) :
    ix.key (heapModifyTuple t.values (transferred cfg.rel.desc new)) =
      ix.key (new.map Datum.value) := by
  obtain ⟨hmem, -, hkey⟩ := Index.of_findPkeyTuple hfind
  have hconf : Conforms cfg.rel.desc new := (h.wellFormed w _ hc).2
  have hrow := (h.valid r).shape t hmem
  refine Index.key_congr hplain fun a ha => heapModifyTuple_transferred_getElem? hconf hrow ?_
  intro v hv hext
  have hlt : a < t.values.length := by
    obtain ⟨hlt, -⟩ := List.getElem?_eq_some_iff.mp hv
    have := hrow.length_eq.symm.trans hconf.length_eq
    omega
  have hjoin := h.carriesKey w _ hc new rfl t.values hkey a ha v hv hext
  rw [List.getElem?_eq_getElem hlt, Option.join_some] at hjoin
  rw [List.getElem?_eq_getElem hlt, hjoin]

theorem InsertedOnce.replay_eq_nil (h : InsertedOnce cfg ix key s)
    (hix : cfg.rel.identityIndex = some ix) {out : Applied ν D} (hc : c ∈ s.net.log w)
    (hins : c.change.inserts ix key = false) (hreplay : cfg.replay r w c (s.tables r) = .ok out)
    (hnil : ix.versions key (s.tables r) = []) : ix.versions key out.rows = [] := by
  have hwf := h.wellFormed w c hc
  have hforeign := h.foreign w c hc
  obtain ⟨ts, ch⟩ := c
  cases ch with
  | insert new =>
    have hother : ix.key (new.map Datum.value) ≠ key := of_decide_eq_false hins
    rcases Config.replay_insert hwf.1 hwf.2 hreplay with ⟨-, hadd⟩ | ⟨tid, t, -, hupd | hrows⟩
    · exact Relation.versions_insertTuple_eq_nil (Index.not_selects_of_key_ne hother) hadd hnil
    · exact Relation.versions_updateTuple_eq_nil (Index.not_selects_of_key_ne hother) hupd hnil
    · exact hrows ▸ hnil
  | update old new =>
    rcases Config.replay_update hix hwf hreplay with
      ⟨-, hrows⟩ | ⟨tid, t, hfind, ⟨-, hupd⟩ | ⟨-, hrows⟩⟩
    · exact hrows ▸ hnil
    · have hkey := h.toSound.key_merged (cfg.rel.identity_plain ix hix).2 hc hfind
      refine Relation.versions_updateTuple_eq_nil (Index.not_selects_of_key_ne ?_) hupd hnil
      rw [hkey]
      exact (hforeign new rfl).2
    · exact hrows ▸ hnil
  | delete old =>
    rcases Config.replay_delete hix hwf hreplay with ⟨-, hrows⟩ | ⟨tid, t, -, hrows⟩
    · exact hrows ▸ hnil
    · rw [hrows]
      exact List.sublist_nil.mp (hnil ▸ ix.versions_eraseIdx_sublist key _ tid)

theorem InsertedOnce.step (h : InsertedOnce cfg ix key s) (hix : cfg.rel.identityIndex = some ix)
    {a : Action ν D} (hok : InsertDeleteStep cfg ix key s a) (hfirst : InsertFirst cfg ix key s a)
    (hstep : cfg.step s a = some s') : InsertedOnce cfg ix key s' := by
  have hplain : ix.expressions = [] := (cfg.rel.identity_plain ix hix).2
  have hsound : Sound cfg ix s' := h.toSound.step hix hstep
  cases a with
  | insert i ts new =>
    obtain ⟨-, -, rows, hadd, rfl⟩ := Config.localInsert_cases hstep
    refine h.localWrite hsound (fun hins => hok (of_decide_eq_true hins)) (by rintro _ ⟨⟩) ?_
      (by rintro ⟨⟩)
    intro hins hnil
    have hother : ix.key (new.map Datum.value) ≠ key := of_decide_eq_false hins
    exact Relation.versions_insertTuple_eq_nil (Index.not_selects_of_key_ne hother) hadd hnil
  | update i ts k new =>
    obtain ⟨tid, t, rows, hfind, hconf, -, hupd, rfl⟩ := Config.localUpdate_cases hix hstep
    obtain ⟨hmem, -, hkey⟩ := Index.of_findPkeyTuple hfind
    refine h.localWrite hsound (by rintro ⟨⟩) ?_ (fun _ hnil => ?_) (by rintro ⟨⟩)
    · intro new' hnew'
      cases hnew'
      have hrow := (h.valid i).shape t hmem
      exact ⟨by rw [scanKey_localUpdate hplain hrow hconf, hkey]; exact hok.1, hok.2⟩
    · exact Relation.versions_updateTuple_eq_nil (Index.not_selects_of_key_ne hok.2) hupd hnil
  | delete i ts k =>
    obtain ⟨tid, t, hfind, rfl⟩ := Config.localDelete_cases hix hstep
    obtain ⟨hmem, -, hkey⟩ := Index.of_findPkeyTuple hfind
    refine h.localWrite hsound (by rintro ⟨⟩) (by rintro _ ⟨⟩) (fun _ hnil => ?_) (fun hdel => ?_)
    · exact List.sublist_nil.mp (hnil ▸ ix.versions_eraseIdx_sublist key _ tid)
    · have hk : k = key := by
        have hscan := of_decide_eq_true (Bool.and_elim_right hdel)
        rw [scanKey_localDelete hplain ((h.valid i).shape t hmem), hkey] at hscan
        exact hscan
      subst hk
      refine ⟨h.present i fun hnil => ?_, (h.valid i).versions_eraseIdx_eq_nil hfind⟩
      rw [Index.findPkeyTuple_eq_none.mpr hnil] at hfind
      cases hfind
  | deliver r w =>
    obtain ⟨hrw, c, out, hnext, hreplay, rfl⟩ := Config.deliver_cases hstep
    have hc := List.mem_of_getElem? hnext
    refine h.delivery hrw hnext hsound
      (fun hins hnil => h.replay_eq_nil hix hc hins hreplay hnil) fun hdel =>
        ⟨hfirst c hnext hdel, ?_⟩
    have hscan := of_decide_eq_true (Bool.and_elim_right hdel)
    have hwf := h.wellFormed w c hc
    obtain ⟨ts, ch⟩ := c
    cases ch with
    | insert new => cases hdel
    | update old new => cases hdel
    | delete old =>
      have hcases := Config.replay_delete hix hwf hreplay
      rw [hscan] at hcases
      rcases hcases with ⟨hnone, hrows⟩ | ⟨tid, t, hfind, hrows⟩
      · rw [hrows]
        exact Index.findPkeyTuple_eq_none.mp hnone
      · rw [hrows]
        exact (h.valid r).versions_eraseIdx_eq_nil hfind

/-- **Delete ordering.** If no delete overtakes the insert, then once everything is
delivered no node has the deleted row. -/
theorem deleteOrdering_gone (hix : cfg.rel.identityIndex = some ix)
    (hs : Reach (NoRow cfg ix key) cfg.step
      (fun s a => InsertDeleteStep cfg ix key s a ∧ InsertFirst cfg ix key s a) s)
    (hsettled : s.net.Settled) {b : ν} {c : Commit D} (hc : c ∈ s.net.log b)
    (hdel : c.change.deletes ix cfg.rel.desc key = true) (r : ν) :
    ix.versions key (s.tables r) = [] := by
  have h : InsertedOnce cfg ix key s := by
    refine hs.invariant (fun s hinit => ?_) fun _ _ _ _ h hok hstep =>
      h.step hix hok.1 hok.2 hstep
    obtain ⟨hnet, hvalid, hnil⟩ := hinit
    refine ⟨⟨by rw [hnet]; exact Net.bounded_empty, hvalid, by simp [hnet], by simp [hnet]⟩,
      by simp [hnet], by simp [hnet], fun r hr => absurd (hnil r) hr, ?_⟩
    intro r w c' hc'
    simp [hnet, Net.seenBy] at hc'
  exact (h.deleted r b c (by rwa [hsettled.seenBy_eq]) hdel).2

end Conditions

def documentsEmpty (n : ℕ) : Cluster (Fin n) ℕ := ⟨fun _ => [], Net.empty⟩

theorem documentsEmpty_noRow (n : ℕ) :
    NoRow (documentsConfig n) documentsKey [some 1] (documentsEmpty n) :=
  ⟨rfl, fun _ => ⟨by simp [documentsEmpty], by simp [documentsEmpty, Index.versions]⟩, fun _ => rfl⟩

def insertArrivesFirst {ν : Type} (a b c : ν) : List (Action ν ℕ) :=
  [.insert a 1 [.inline 1, .inline 10, .inline 20], .deliver b a, .delete b 2 [some 1],
    .deliver c a, .deliver c b, .deliver a b]

def deleteArrivesFirst {ν : Type} (a b c : ν) : List (Action ν ℕ) :=
  [.insert a 1 [.inline 1, .inline 10, .inline 20], .deliver b a, .delete b 2 [some 1],
    .deliver c b, .deliver c a, .deliver a b]

/-- In the first order the document is gone. -/
theorem deleteOrdering_gone_insertArrivesFirst :
    ∃ s, Reach (NoRow (documentsConfig 3) documentsKey [some 1]) (documentsConfig 3).step
      (fun s a => InsertDeleteStep (documentsConfig 3) documentsKey [some 1] s a ∧
        InsertFirst (documentsConfig 3) documentsKey [some 1] s a) s ∧
      s.net.Settled ∧ ∀ r, documentsKey.versions [some 1] (s.tables r) = [] := by
  have hstart : Reach _ (documentsConfig 3).step
      (fun s a => InsertDeleteStep (documentsConfig 3) documentsKey [some 1] s a ∧
        InsertFirst (documentsConfig 3) documentsKey [some 1] s a) (documentsEmpty 3) :=
    .init (documentsEmpty_noRow 3)
  obtain ⟨s, hs, hsettled, c, hc, hdel⟩ := hstart.exists_of_run (insertArrivesFirst 0 1 2)
    (fun s => s.net.Settled ∧ ∃ c ∈ s.net.log 1,
      c.change.deletes documentsKey (documentsConfig 3).rel.desc [some 1] = true)
    (by decide +kernel)
  exact ⟨s, hs, hsettled, deleteOrdering_gone rfl hs hsettled hc hdel⟩

/-- In the second order the document is back on the third node. -/
theorem deleteOrdering_resurrected :
    ¬ ∀ (n : ℕ) (cfg : Config (Fin n) ℕ) (ix : Index ℕ) (key : List (Option ℕ))
      (s : Cluster (Fin n) ℕ) (a b : Fin n) (c c' : Commit ℕ), 3 ≤ n →
      cfg.rel.identityIndex = some ix →
      Reach (NoRow cfg ix key) cfg.step (InsertDeleteStep cfg ix key) s → s.net.Settled →
      a ≠ b → c ∈ s.net.log a → c.change.inserts ix key = true →
      c' ∈ s.net.log b → c'.change.deletes ix cfg.rel.desc key = true →
      ∀ r, ix.versions key (s.tables r) = [] := by
  intro hclaim
  have hstart : Reach _ (documentsConfig 3).step
      (InsertDeleteStep (documentsConfig 3) documentsKey [some 1]) (documentsEmpty 3) :=
    .init (documentsEmpty_noRow 3)
  obtain ⟨s, hs, hsettled, ⟨c, hc, hins⟩, ⟨c', hc', hdel⟩, hback⟩ :=
    hstart.exists_of_run (deleteArrivesFirst 0 1 2)
      (fun s => s.net.Settled ∧
        (∃ c ∈ s.net.log 0, c.change.inserts documentsKey [some 1] = true) ∧
        (∃ c ∈ s.net.log 1,
          c.change.deletes documentsKey (documentsConfig 3).rel.desc [some 1] = true) ∧
        documentsKey.versions [some 1] (s.tables 2) ≠ []) (by decide +kernel)
  exact hback (hclaim 3 (documentsConfig 3) documentsKey [some 1] s 0 1 c c' le_rfl rfl hs
    hsettled (by decide) hc hins hc' hdel 2)

end Pgactive
