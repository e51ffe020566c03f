import Mathlib.Data.Finset.Card
import Mathlib.Order.Bounds.Basic

/-!
# Broadcast through logs with read positions

Every writer appends to one log. Each reader has a position in the log of each writer and reads it
in order; nothing orders the logs of different writers. Moving a position back models redelivery.
-/

namespace BroadcastLog

variable {N E : Type*}

/-- The logs of all writers together with the position of each reader in each of them. -/
structure Net (N E : Type*) where
  /-- What each writer has appended so far, oldest entry first. -/
  log : N → List E
  /-- `pos r w` is the number of entries of `w`'s log that `r` has read. -/
  pos : N → N → ℕ

def Net.empty : Net N E := ⟨fun _ => [], fun _ _ => 0⟩

/-- The next entry of `w`'s log for the reader `r`, if there is one. -/
def Net.next (net : Net N E) (r w : N) : Option E := (net.log w)[net.pos r w]?

@[simp] theorem Net.empty_log (w : N) : (empty : Net N E).log w = [] := rfl

@[simp] theorem Net.empty_pos (r w : N) : (empty : Net N E).pos r w = 0 := rfl

variable {net : Net N E} {r w : N} {e : E}

theorem Net.next_eq_some (h : net.next r w = some e) :
    ∃ hlt : net.pos r w < (net.log w).length, (net.log w)[net.pos r w] = e :=
  List.getElem?_eq_some_iff.mp h

variable {log : List E} {k : ℕ}

theorem getElem?_of_isPrefix {log' : List E} (h : log <+: log') (he : log[k]? = some e) :
    log'[k]? = some e := by
  obtain ⟨rest, rfl⟩ := h
  obtain ⟨hlt, -⟩ := List.getElem?_eq_some_iff.mp he
  rw [List.getElem?_append_left hlt, he]

variable {e' : E}

theorem getElem?_concat_eq_some_iff :
    (log ++ [e])[k]? = some e' ↔ log[k]? = some e' ∨ k = log.length ∧ e = e' := by
  rcases lt_trichotomy k log.length with hk | rfl | hk
  · rw [List.getElem?_append_left hk]
    simp [hk.ne]
  · simp
  · rw [List.getElem?_eq_none (by simp; omega), List.getElem?_eq_none (by omega)]
    simp [hk.ne']

def Net.Bounded (net : Net N E) : Prop := ∀ r w, net.pos r w ≤ (net.log w).length

theorem Net.bounded_empty : (empty : Net N E).Bounded := fun _ _ => by simp

def Net.Settled (net : Net N E) : Prop := ∀ r w, r ≠ w → net.pos r w = (net.log w).length

variable [DecidableEq N]

instance [Fintype N] (net : Net N E) : Decidable net.Settled :=
  inferInstanceAs (Decidable (∀ _ _, _ → _))

def Net.append (net : Net N E) (w : N) (es : List E) : Net N E :=
  { net with log := Function.update net.log w (net.log w ++ es) }

def Net.seek (net : Net N E) (r w : N) (k : ℕ) : Net N E :=
  { net with pos := Function.update net.pos r (Function.update (net.pos r) w k) }

/-- Move reader `r` past one entry of `w`'s log. -/
def Net.advance (net : Net N E) (r w : N) : Net N E := net.seek r w (net.pos r w + 1)

@[simp] theorem Net.append_pos (net : Net N E) (w : N) (es : List E) :
    (net.append w es).pos = net.pos := rfl

@[simp] theorem Net.append_log_self (net : Net N E) (w : N) (es : List E) :
    (net.append w es).log w = net.log w ++ es := by simp [append]

variable {v : N}

theorem Net.append_log_of_ne (net : Net N E) (h : v ≠ w) (es : List E) :
    (net.append w es).log v = net.log v := by simp [append, h]

variable {es : List E}

theorem Net.mem_log_append : e ∈ (net.append w es).log v ↔ e ∈ net.log v ∨ v = w ∧ e ∈ es := by
  by_cases hv : v = w
  · subst hv
    rw [append_log_self, List.mem_append, and_iff_right rfl]
  · simp [net.append_log_of_ne hv, hv]

theorem Net.getElem?_log_append :
    ((net.append w [e]).log v)[k]? = some e' ↔
      (net.log v)[k]? = some e' ∨ v = w ∧ k = (net.log w).length ∧ e = e' := by
  by_cases hv : v = w
  · subst hv
    rw [append_log_self, getElem?_concat_eq_some_iff, and_iff_right rfl]
  · simp [net.append_log_of_ne hv, hv]

@[simp] theorem Net.append_nil (net : Net N E) (w : N) : net.append w [] = net := by
  simp [append]

@[simp] theorem Net.seek_log (net : Net N E) (r w : N) (k : ℕ) :
    (net.seek r w k).log = net.log := rfl

@[simp] theorem Net.advance_log (net : Net N E) (r w : N) :
    (net.advance r w).log = net.log := rfl

@[simp] theorem Net.seek_pos_self (net : Net N E) (r w : N) (k : ℕ) :
    (net.seek r w k).pos r w = k := by simp [seek]

variable {r' w' : N}

theorem Net.seek_pos_of_ne (net : Net N E) (h : r' ≠ r ∨ w' ≠ w) (k : ℕ) :
    (net.seek r w k).pos r' w' = net.pos r' w' := by
  by_cases hr : r' = r
  · subst hr
    simp [seek, h.resolve_left (by simp)]
  · simp [seek, hr]

@[simp] theorem Net.advance_pos_self (net : Net N E) (r w : N) :
    (net.advance r w).pos r w = net.pos r w + 1 := net.seek_pos_self ..

theorem Net.advance_pos_of_ne (net : Net N E) (h : r' ≠ r ∨ w' ≠ w) :
    (net.advance r w).pos r' w' = net.pos r' w' := net.seek_pos_of_ne h _

theorem Net.next_append (h : net.next r w = some e) (v : N) (es : List E) :
    (net.append v es).next r w = some e := by
  obtain ⟨hlt, -⟩ := next_eq_some h
  by_cases hv : w = v
  · subst hv
    rw [next, append_pos, append_log_self, List.getElem?_append_left hlt]
    exact h
  · rw [next, append_pos, net.append_log_of_ne hv]
    exact h

theorem Net.log_isPrefix_append (net : Net N E) (w : N) (es : List E) (v : N) :
    net.log v <+: (net.append w es).log v := by
  by_cases hv : v = w
  · subst hv
    rw [append_log_self]
    exact List.prefix_append _ _
  · rw [net.append_log_of_ne hv]

theorem Net.log_subset_append (net : Net N E) (w v : N) (es : List E) :
    net.log v ⊆ (net.append w es).log v := (net.log_isPrefix_append w es v).subset

theorem Net.Bounded.append (h : net.Bounded) (w : N) (es : List E) : (net.append w es).Bounded := by
  intro r v
  by_cases hv : v = w
  · subst hv
    have := h r v
    simp only [append_pos, append_log_self, List.length_append]
    omega
  · rw [net.append_log_of_ne hv]
    exact h r v

theorem Net.Bounded.seek (h : net.Bounded) (hk : k ≤ (net.log w).length) :
    (net.seek r w k).Bounded := by
  intro r' w'
  by_cases hrw : r' = r ∧ w' = w
  · obtain ⟨rfl, rfl⟩ := hrw
    rw [net.seek_pos_self]
    exact hk
  · rw [net.seek_pos_of_ne (by tauto)]
    exact h r' w'

theorem Net.Bounded.advance (h : net.Bounded) (hnext : net.next r w = some e) :
    (net.advance r w).Bounded := by
  obtain ⟨hlt, -⟩ := next_eq_some hnext
  exact h.seek hlt

/-- What reader `r` knows of `w`'s log: its own log in full, the others up to its position. -/
def Net.seenBy (net : Net N E) (r w : N) : List E :=
  if w = r then net.log w else (net.log w).take (net.pos r w)

theorem Net.Settled.seenBy_eq (h : net.Settled) (r w : N) : net.seenBy r w = net.log w := by
  by_cases hw : w = r
  · simp [seenBy, hw]
  · simp [seenBy, hw, h r w (Ne.symm hw)]

theorem Net.seenBy_isPrefix (net : Net N E) (r w : N) : net.seenBy r w <+: net.log w := by
  unfold seenBy
  split
  · exact List.prefix_refl _
  · exact List.take_prefix _ _

theorem Net.seenBy_subset (net : Net N E) (r w : N) : net.seenBy r w ⊆ net.log w :=
  (net.seenBy_isPrefix r w).subset

theorem Net.Bounded.seenBy_append (h : net.Bounded) (w : N) (es : List E) (r v : N) :
    (net.append w es).seenBy r v =
      if v = w ∧ r = w then net.seenBy r v ++ es else net.seenBy r v := by
  by_cases hv : v = w
  · subst hv
    by_cases hr : r = v
    · simp [seenBy, hr]
    · have hr' : v ≠ r := Ne.symm hr
      simp [seenBy, hr, hr', List.take_append_of_le_length (h r v)]
  · simp [seenBy, net.append_log_of_ne hv, hv]

theorem Net.seenBy_advance (hrw : r ≠ w) (hnext : net.next r w = some e) (r' w' : N) :
    (net.advance r w).seenBy r' w' =
      if r' = r ∧ w' = w then net.seenBy r' w' ++ [e] else net.seenBy r' w' := by
  by_cases hsame : r' = r ∧ w' = w
  · obtain ⟨rfl, rfl⟩ := hsame
    obtain ⟨hlt, he⟩ := next_eq_some hnext
    have hw : w' ≠ r' := Ne.symm hrw
    simp [seenBy, hw, List.take_add_one, hlt, he]
  · rw [if_neg hsame]
    unfold seenBy
    rw [net.advance_pos_of_ne (by tauto), net.advance_log]

theorem Net.seenBy_congr {net' : Net N E} (hlog : net'.log = net.log)
    (hpos : net'.pos r = net.pos r) : net'.seenBy r = net.seenBy r := by
  funext w
  rw [seenBy, seenBy, hlog, hpos]

theorem Net.Bounded.length_seenBy (h : net.Bounded) (hrw : w ≠ r) :
    (net.seenBy r w).length = net.pos r w := by
  rw [seenBy, if_neg hrw, List.length_take, Nat.min_eq_left (h r w)]

theorem Net.Bounded.mem_seenBy_append_iff (h : net.Bounded) :
    e ∈ (net.append w es).seenBy r v ↔ e ∈ net.seenBy r v ∨ (v = w ∧ r = w) ∧ e ∈ es := by
  rw [h.seenBy_append]
  split_ifs with hw
  · rw [List.mem_append, and_iff_right hw]
  · simp [hw]

theorem Net.mem_seenBy_advance_iff (hrw : r ≠ w) (hnext : net.next r w = some e) :
    e' ∈ (net.advance r w).seenBy r' w' ↔ e' ∈ net.seenBy r' w' ∨ (r' = r ∧ w' = w) ∧ e' = e := by
  rw [seenBy_advance hrw hnext]
  split_ifs with hr
  · rw [List.mem_append, List.mem_singleton, and_iff_right hr]
  · simp [hr]

theorem Net.Bounded.seenBy_subset_append (h : net.Bounded) (w : N) (es : List E) (r v : N) :
    net.seenBy r v ⊆ (net.append w es).seenBy r v :=
  fun _ he => h.mem_seenBy_append_iff.mpr (.inl he)

theorem Net.seenBy_subset_advance (hrw : r ≠ w) (hnext : net.next r w = some e) (r' w' : N) :
    net.seenBy r' w' ⊆ (net.advance r w).seenBy r' w' :=
  fun _ he => (mem_seenBy_advance_iff hrw hnext).mpr (.inl he)

theorem Net.mem_seenBy_append (net : Net N E) (w : N) (e : E) :
    e ∈ (net.append w [e]).seenBy w w := by
  simp [seenBy]

theorem Net.mem_seenBy_advance (hrw : r ≠ w) (hnext : net.next r w = some e) :
    e ∈ (net.advance r w).seenBy r w := by
  simp [seenBy_advance hrw hnext]

theorem Net.rel_next_of_pairwise {R : E → E → Prop} (hlog : (net.log w).Pairwise R) (hrw : r ≠ w)
    (hnext : net.next r w = some e) (he' : e' ∈ net.seenBy r w) : R e' e := by
  obtain ⟨hlt, rfl⟩ := next_eq_some hnext
  rw [seenBy, if_neg (Ne.symm hrw)] at he'
  obtain ⟨i, hi, rfl⟩ := List.mem_take_iff_getElem.mp he'
  exact List.pairwise_iff_getElem.mp hlog i _ _ hlt (by omega)

def Net.unread (net : Net N E) (r w : N) : List E := (net.log w).drop (net.pos r w)

theorem Net.unread_of_next (h : net.next r w = some e) :
    net.unread r w = e :: (net.advance r w).unread r w := by
  obtain ⟨hlt, rfl⟩ := next_eq_some h
  rw [unread, unread, net.advance_log, net.advance_pos_self, List.drop_eq_getElem_cons hlt]

theorem Net.unread_seek_of_ne (net : Net N E) (h : r' ≠ r ∨ w' ≠ w) (k : ℕ) :
    (net.seek r w k).unread r' w' = net.unread r' w' := by
  rw [unread, net.seek_log, net.seek_pos_of_ne h, unread]

theorem Net.Bounded.unread_append (h : net.Bounded) (w : N) (es : List E) (r v : N) :
    (net.append w es).unread r v = if v = w then net.unread r v ++ es else net.unread r v := by
  by_cases hv : v = w
  · subst hv
    rw [if_pos rfl, unread, append_pos, append_log_self,
      List.drop_append_of_le_length (h r v), unread]
  · rw [if_neg hv, unread, append_pos, net.append_log_of_ne hv, unread]

theorem Net.mem_unread_of_mem_advance (h : net.next r w = some e)
    (he' : e' ∈ (net.advance r w).unread r' w') : e' ∈ net.unread r' w' := by
  by_cases hsame : r' = r ∧ w' = w
  · obtain ⟨rfl, rfl⟩ := hsame
    rw [unread_of_next h]
    exact List.mem_cons_of_mem _ he'
  · rwa [advance, net.unread_seek_of_ne (by tauto)] at he'

theorem Net.mem_unread_append (h : e ∈ (net.append w es).unread r v) :
    e ∈ net.unread r v ∨ v = w ∧ e ∈ es := by
  by_cases hv : v = w
  · subst hv
    rw [unread, append_pos, append_log_self, List.drop_append] at h
    rcases List.mem_append.mp h with h | h
    · exact .inl h
    · exact .inr ⟨rfl, List.mem_of_mem_drop h⟩
  · rw [unread, append_pos, net.append_log_of_ne hv] at h
    exact .inl h

/-- The number of the last entry with the property `p`, counted from one, and zero if
there is none. -/
def lastNumber (p : E → Bool) (log : List E) : ℕ := (log.reverse.dropWhile fun e => !p e).length

theorem lastNumber_concat (p : E → Bool) (log : List E) (e : E) :
    lastNumber p (log ++ [e]) = if p e then log.length + 1 else lastNumber p log := by
  cases he : p e <;> simp [lastNumber, he]

theorem lastNumber_append_of_forall {p : E → Bool} (h : ∀ e ∈ es, p e = false) (log : List E) :
    lastNumber p (log ++ es) = lastNumber p log := by
  induction es generalizing log with
  | nil => simp
  | cons e es ih =>
    rw [List.append_cons, ih fun x hx => h x (List.mem_cons_of_mem _ hx), lastNumber_concat,
      h e List.mem_cons_self]
    rfl

theorem lastNumber_le_length (p : E → Bool) (log : List E) : lastNumber p log ≤ log.length := by
  simpa [lastNumber] using (List.dropWhile_suffix (l := log.reverse) fun e => !p e).length_le

theorem le_lastNumber {p : E → Bool} (he : log[k]? = some e) (hp : p e = true) :
    k + 1 ≤ lastNumber p log := by
  induction log using List.reverseRecOn with
  | nil => simp at he
  | append_singleton log x ih =>
    rw [lastNumber_concat]
    rcases lt_trichotomy k log.length with hk | rfl | hk
    · have := ih (by simpa [List.getElem?_append_left hk] using he)
      split
      · omega
      · exact this
    · simp only [List.getElem?_concat_length, Option.some.injEq] at he
      simp [he, hp]
    · rw [List.getElem?_eq_none (by simp; omega)] at he
      cases he

theorem lastNumber_le_append (p : E → Bool) (log es : List E) :
    lastNumber p log ≤ lastNumber p (log ++ es) := by
  induction es generalizing log with
  | nil => simp
  | cons e es ih =>
    rw [List.append_cons]
    refine le_trans ?_ (ih _)
    have := lastNumber_le_length p log
    rw [lastNumber_concat]
    split <;> omega

theorem mem_of_card_le_length {answered : List N} {writers : Finset N} (hnodup : answered.Nodup)
    (hsub : ∀ w ∈ answered, w ∈ writers) (hcard : writers.card ≤ answered.length)
    (hw : w ∈ writers) : w ∈ answered := by
  have hsubset : answered.toFinset ⊆ writers := fun v hv => hsub v (List.mem_toFinset.mp hv)
  rw [← List.toFinset_card_of_nodup hnodup] at hcard
  rw [← Finset.eq_of_subset_of_card_le hsubset hcard] at hw
  exact List.mem_toFinset.mp hw

end BroadcastLog
