import Pgactive.Stream.Output

/-!
# A group without changeset forwarding

Every node logs the transactions of its users and those that it replays. A walsender for each peer
decodes this log in order, and its output is applied there under the origin of the sender. Each
logged transaction remembers, as history, who executed it.
-/

namespace Pgactive.Stream

open ByteReader BroadcastLog FallibleState Transition

variable {ν : Type}

abbrev Changes := List (LocalRelation × Change Value)

/-- A committed transaction in the log of a node. -/
structure LoggedTxn (ν : Type) where
  /-- What logical decoding knows of the transaction. -/
  header : Txn
  changes : Changes
  /-- The node whose users executed it. -/
  home : ν

def selected (ws : Walsender) (changes : Changes) : Changes :=
  changes.filter fun rc => shouldForwardChange ws.data rc.1 (kindOf rc.2)

/-- What the callbacks have written, and the error that has ended them. -/
abbrev Output := List (List UInt8) × Option WireError

/-- A callback, and what comes after it. -/
def Output.write (callback : Except WireError (Option (List UInt8))) (rest : Output) : Output :=
  match callback with
  | .ok m => (m.toList ++ rest.1, rest.2)
  | .error e => ([], some e)

def decodeChanges (ws : Walsender) (txn : Txn) (last : Output) : Changes → Output
  | [] => last
  | rc :: changes => .write (pgDecodeChange ws txn rc.1 rc.2) (decodeChanges ws txn last changes)

/-- The messages that the three callbacks emit for one transaction. -/
def decodeTxn (ws : Walsender) (txn : Txn) (changes : Changes) : Output :=
  .write (pgDecodeBeginTxn ws txn)
    (decodeChanges ws txn (.write (pgDecodeCommitTxn ws txn) ([], none)) changes)

def CompleteFrame (ws : Walsender) (txn : Txn) (changes : Changes) (ms : List (List UInt8)) :
    Prop :=
  ∃ first body last, ms = first :: (body ++ [last]) ∧
    pgDecodeBeginTxn ws txn = .ok (some first) ∧
    List.Forall₂ (fun rc m => pgDecodeChange ws txn rc.1 rc.2 = .ok (some m))
      (selected ws changes) body ∧
    pgDecodeCommitTxn ws txn = .ok (some last)

/-- BEGIN and the selected changes up to one that cannot be written. -/
def BrokenFrame (ws : Walsender) (txn : Txn) (changes : Changes) (e : WireError)
    (ms : List (List UInt8)) : Prop :=
  ∃ first done rc rest body, ms = first :: body ∧ changes = done ++ rc :: rest ∧
    pgDecodeBeginTxn ws txn = .ok (some first) ∧
    List.Forall₂ (fun rc m => pgDecodeChange ws txn rc.1 rc.2 = .ok (some m))
      (selected ws done) body ∧
    pgDecodeChange ws txn rc.1 rc.2 = .error e

/-- What a walsender has sent for one transaction. -/
structure Frame (ν : Type) where
  ws : Walsender
  txn : LoggedTxn ν
  /-- Its output, empty if the transaction is not forwarded. -/
  messages : List (List UInt8)
  /-- The error that ended the walsender. -/
  error : Option WireError

def Frame.Framed (f : Frame ν) : Prop :=
  match f.error with
  | none => CompleteFrame f.ws f.txn.header f.txn.changes f.messages
  | some e => BrokenFrame f.ws f.txn.header f.txn.changes e f.messages

/-- The logs of a group and the streams between its nodes. -/
structure Group (ν : Type) where
  /-- Logs, and how far the walsender for each reader has decoded them. -/
  net : Net ν (LoggedTxn ν)
  /-- `sent i j`: what `i` has sent to `j`, oldest first. -/
  sent : ν → ν → List (Frame ν)
  /-- `applied j i`: the number of frames of `i` that `j` has applied. -/
  applied : ν → ν → ℕ

/-- A step of the group. -/
inductive GroupAction (ν : Type)
  /-- A session of `i` commits, with or without `pgactive.do_not_replicate`. -/
  | execute (i : ν) (txn : Txn) (changes : Changes) (localOnly : Bool)
  /-- The walsender of `i` for `j` decodes the next transaction. -/
  | decode (i j : ν) (ws : Walsender)
  /-- The apply worker of `j` for `i` applies the next frame. It commits the given local
  transactions: none without a change, several around a queued DDL command. -/
  | apply (j i : ν) (written : List (Txn × Changes))
  /-- The walsender of `i` for `j` starts again at an earlier position. -/
  | restart (i j : ν) (pos : ℕ)

/-- The origin identifiers of the nodes: `originId j i` is that of `i` on `j`. -/
abbrev Origins (ν : Type) := ν → ν → RepOriginId

/-- `replorigin_create` assigns neither of the two reserved identifiers. -/
def Origins.Valid (originId : Origins ν) : Prop :=
  ∀ j i, originId j i ≠ invalidRepOriginId ∧ originId j i ≠ doNotReplicateId

/-- A transaction of the apply worker carries the origin of its session. -/
def replayed (origin : RepOriginId) (home : ν) (w : Txn × Changes) : LoggedTxn ν :=
  ⟨{ w.1 with originId := origin }, w.2, home⟩

/-- Nothing executed and nothing sent. -/
def Group.empty : Group ν := ⟨.empty, fun _ _ => [], fun _ _ => 0⟩

section Steps

variable [DecidableEq ν]

def Group.step (originId : Origins ν) (s : Group ν) : GroupAction ν → Option (Group ν)
  | .execute i txn changes localOnly =>
    let origin := if localOnly then doNotReplicateId else invalidRepOriginId
    some { s with net := s.net.append i [⟨{ txn with originId := origin }, changes, i⟩] }
  | .decode i j ws => do
    guard (i ≠ j ∧ ws.data.forwardChangesets = false)
    let txn ← s.net.next j i
    let (messages, error) := decodeTxn ws txn.header txn.changes
    return { s with
      -- after an error the transaction is decoded again
      net := if error.isSome then s.net else s.net.advance j i
      sent := Function.update s.sent i
        (Function.update (s.sent i) j (s.sent i j ++ [⟨ws, txn, messages, error⟩])) }
  | .apply j i written => do
    let frame ← (s.sent i j)[s.applied j i]?
    -- a transaction that was not forwarded reaches the peer as nothing at all
    let new := if frame.messages.isEmpty then [] else written
    return { s with
      net := s.net.append j (new.map (replayed (originId j i) frame.txn.home))
      applied := Function.update s.applied j
        (Function.update (s.applied j) i (s.applied j i + 1)) }
  | .restart i j pos => do
    guard (pos ≤ s.net.pos j i)
    return { s with net := s.net.seek j i pos }

end Steps

/-! ### Framing -/

variable {ws : Walsender} {txn : Txn} {changes : Changes} {ms : List (List UInt8)}

theorem decodeTxn_skipped (h : shouldForwardChangeset ws.data txn.originId = false)
    (changes : Changes) : decodeTxn ws txn changes = ([], none) := by
  obtain ⟨hbegin, hchange, hcommit⟩ := emits_nothing h
  rw [decodeTxn, hbegin, hcommit]
  induction changes with
  | nil => rfl
  | cons rc changes ih => rwa [decodeChanges, hchange]

theorem selected_of_pgDecodeChange (hfwd : shouldForwardChangeset ws.data txn.originId = true)
    {rc : LocalRelation × Change Value} {m : Option (List UInt8)}
    (hm : pgDecodeChange ws txn rc.1 rc.2 = .ok m) :
    List.Forall₂ (fun rc m => pgDecodeChange ws txn rc.1 rc.2 = .ok (some m))
      (selected ws [rc]) m.toList := by
  cases hsel : shouldForwardChange ws.data rc.1 (kindOf rc.2) with
  | false =>
    obtain rfl : m = none := by simpa [pgDecodeChange, hfwd, hsel] using hm.symm
    simp [selected, hsel]
  | true =>
    obtain ⟨out, rfl⟩ : ∃ out, m = some out := by
      simp only [pgDecodeChange, hfwd, hsel, if_true] at hm
      obtain ⟨out, -, heq⟩ := except_map_eq_ok.mp hm
      exact ⟨out, heq.symm⟩
    simpa [selected, hsel] using hm

theorem decodeChanges_cases (hfwd : shouldForwardChangeset ws.data txn.originId = true)
    (last : Output) (changes : Changes) :
    (∃ body, List.Forall₂ (fun rc m => pgDecodeChange ws txn rc.1 rc.2 = .ok (some m))
      (selected ws changes) body ∧
        decodeChanges ws txn last changes = (body ++ last.1, last.2)) ∨
    ∃ done rc rest body e, changes = done ++ rc :: rest ∧
      List.Forall₂ (fun rc m => pgDecodeChange ws txn rc.1 rc.2 = .ok (some m))
        (selected ws done) body ∧ pgDecodeChange ws txn rc.1 rc.2 = .error e ∧
      decodeChanges ws txn last changes = (body, some e) := by
  induction changes with
  | nil => exact .inl ⟨[], .nil, rfl⟩
  | cons rc changes ih =>
    rw [decodeChanges]
    cases hm : pgDecodeChange ws txn rc.1 rc.2 with
    | error e => exact .inr ⟨[], rc, changes, [], e, rfl, .nil, hm, rfl⟩
    | ok m =>
      have hfirst := selected_of_pgDecodeChange hfwd hm
      have hsplit (changes : Changes) :
          selected ws (rc :: changes) = selected ws [rc] ++ selected ws changes :=
        List.filter_append [rc] changes
      obtain ⟨body, hbody, hout⟩ | ⟨done, rc', rest, body, e, rfl, hbody, he, hout⟩ := ih
      · refine .inl ⟨m.toList ++ body, hsplit _ ▸ List.rel_append hfirst hbody, ?_⟩
        simp [Output.write, hout]
      · refine .inr ⟨rc :: done, rc', rest, m.toList ++ body, e, rfl,
          hsplit _ ▸ List.rel_append hfirst hbody, he, ?_⟩
        simp [Output.write, hout]

theorem decodeTxn_frame (hws : ws.data.forwardChangesets = false)
    (hfwd : shouldForwardChangeset ws.data txn.originId = true) (changes : Changes) :
    (∃ ms, decodeTxn ws txn changes = (ms, none) ∧ CompleteFrame ws txn changes ms) ∨
      ∃ ms e, decodeTxn ws txn changes = (ms, some e) ∧ BrokenFrame ws txn changes e ms := by
  have hbegin : pgDecodeBeginTxn ws txn = .ok (some (beginBytes none txn)) := by
    simp [pgDecodeBeginTxn, hfwd, hws, outputPluginWrite_ok (beginBytes_length_lt none txn)]
  have hcommit : pgDecodeCommitTxn ws txn = .ok (some (commitBytes txn)) := by
    simp [pgDecodeCommitTxn, hfwd, outputPluginWrite_ok (commitBytes_length_lt txn)]
  unfold decodeTxn
  obtain ⟨body, hbody, hout⟩ | ⟨done, rc, rest, body, e, hsplit, hbody, he, hout⟩ :=
    decodeChanges_cases hfwd (.write (pgDecodeCommitTxn ws txn) ([], none)) changes
  · refine .inl ⟨_, ?_, _, body, _, rfl, hbegin, hbody, hcommit⟩
    rw [hout, hbegin, hcommit]
    rfl
  · refine .inr ⟨_, e, ?_, _, done, rc, rest, body, rfl, hsplit, hbegin, hbody, he⟩
    rw [hout, hbegin]
    rfl

theorem originId_of_shouldForwardChangeset (hws : ws.data.forwardChangesets = false)
    (hfwd : shouldForwardChangeset ws.data txn.originId = true) :
    txn.originId = invalidRepOriginId := by
  by_contra horigin
  simp [shouldForwardChangeset, hws, horigin] at hfwd

/-! ### The group -/

variable {originId : Origins ν} {s s' : Group ν}

/-- A logged transaction was executed here, or it was received from the node that executed
it. -/
def DirectOrLocal (originId : Origins ν) (j : ν) (t : LoggedTxn ν) : Prop :=
  (t.home = j ∧ (t.header.originId = invalidRepOriginId ∨
    t.header.originId = doNotReplicateId)) ∨
  ∃ i, i ≠ j ∧ t.home = i ∧ t.header.originId = originId j i

def OwnOrEmpty (i j : ν) (f : Frame ν) : Prop :=
  i ≠ j ∧ (f.messages = [] ∨ f.txn.home = i ∧ f.Framed)

/-- The invariant of a group: what the logs and the streams hold. -/
structure Group.LoopFree (originId : Origins ν) (s : Group ν) : Prop where
  logged : ∀ j, ∀ t ∈ s.net.log j, DirectOrLocal originId j t
  /-- Streams hold transactions of their senders. -/
  framed : ∀ i j, ∀ f ∈ s.sent i j, OwnOrEmpty i j f

variable {i j : ν}

theorem ownOrEmpty_of_decodeTxn (hvalid : originId.Valid) {t : LoggedTxn ν} (hij : i ≠ j)
    (hws : ws.data.forwardChangesets = false) (ht : DirectOrLocal originId i t) :
    OwnOrEmpty i j ⟨ws, t, (decodeTxn ws t.header t.changes).1,
      (decodeTxn ws t.header t.changes).2⟩ := by
  refine ⟨hij, ?_⟩
  cases hfwd : shouldForwardChangeset ws.data t.header.originId with
  | false => exact .inl (by rw [decodeTxn_skipped hfwd])
  | true =>
    have horigin := originId_of_shouldForwardChangeset hws hfwd
    rcases ht with ⟨hhome, -⟩ | ⟨k, -, -, hk⟩
    · refine .inr ⟨hhome, ?_⟩
      obtain ⟨ms, hout, hframe⟩ | ⟨ms, e, hout, hframe⟩ := decodeTxn_frame hws hfwd t.changes
      all_goals
        rw [hout]
        exact hframe
    · exact absurd (hk.symm.trans horigin) (hvalid i k).1

variable [DecidableEq ν]

theorem Group.decode_cases (h : s.step originId (.decode i j ws) = some s') :
    i ≠ j ∧ ws.data.forwardChangesets = false ∧ ∃ txn, s.net.next j i = some txn ∧
      s'.net.log = s.net.log ∧
      s'.sent = Function.update s.sent i (Function.update (s.sent i) j (s.sent i j ++
        [⟨ws, txn, (decodeTxn ws txn.header txn.changes).1,
          (decodeTxn ws txn.header txn.changes).2⟩])) := by
  obtain ⟨u, hguard, h⟩ := Option.bind_eq_some_iff.mp h
  obtain ⟨hij, hws⟩ := (Option.guard_eq_some' u).mp hguard
  obtain ⟨txn, htxn, h⟩ := Option.bind_eq_some_iff.mp h
  obtain rfl := Option.some.inj h
  exact ⟨hij, hws, txn, htxn, (apply_ite Net.log ..).trans (ite_self _), rfl⟩

theorem Group.apply_cases {written : List (Txn × Changes)}
    (h : s.step originId (.apply j i written) = some s') :
    ∃ frame, frame ∈ s.sent i j ∧
      s' = { s with
        net := s.net.append j ((if frame.messages.isEmpty then [] else written).map
          (replayed (originId j i) frame.txn.home))
        applied := Function.update s.applied j
          (Function.update (s.applied j) i (s.applied j i + 1)) } := by
  obtain ⟨frame, hframe, h⟩ := Option.bind_eq_some_iff.mp h
  exact ⟨frame, List.mem_of_getElem? hframe, (Option.some.inj h).symm⟩

theorem Group.LoopFree.step (hvalid : originId.Valid) {a : GroupAction ν}
    (h : s.LoopFree originId) (hstep : s.step originId a = some s') : s'.LoopFree originId := by
  cases a with
  | execute i txn changes localOnly =>
    cases hstep
    refine ⟨fun j t ht => ?_, h.framed⟩
    rw [Net.mem_log_append, List.mem_singleton] at ht
    rcases ht with ht | ⟨rfl, rfl⟩
    · exact h.logged j t ht
    · cases localOnly with
      | false => exact Or.inl ⟨rfl, Or.inl rfl⟩
      | true => exact Or.inl ⟨rfl, Or.inr rfl⟩
  | decode i j ws =>
    obtain ⟨hij, hws, txn, hnext, hlog, hsent⟩ := decode_cases hstep
    refine ⟨hlog ▸ h.logged, fun i' j' f hf => ?_⟩
    rw [hsent] at hf
    by_cases hsame : i' = i ∧ j' = j
    · obtain ⟨rfl, rfl⟩ := hsame
      simp only [Function.update_self, List.mem_append, List.mem_singleton] at hf
      rcases hf with hf | rfl
      · exact h.framed i' j' f hf
      · obtain ⟨hlt, rfl⟩ := Net.next_eq_some hnext
        exact ownOrEmpty_of_decodeTxn hvalid hij hws (h.logged i' _ (List.getElem_mem hlt))
    · refine h.framed i' j' f ?_
      by_cases hi : i' = i
      · subst hi
        have hj : j' ≠ j := fun hj => hsame ⟨rfl, hj⟩
        simpa [Function.update_of_ne hj] using hf
      · simpa [Function.update_of_ne hi] using hf
  | apply j i written =>
    obtain ⟨frame, hframe, rfl⟩ := apply_cases hstep
    refine ⟨fun k t ht => ?_, h.framed⟩
    rcases Net.mem_log_append.mp ht with ht | ⟨rfl, ht⟩
    · exact h.logged k t ht
    · obtain ⟨w, hw, rfl⟩ := List.mem_map.mp ht
      obtain ⟨hik, hempty | ⟨hhome, -⟩⟩ := h.framed i k frame hframe
      · simp [hempty] at hw
      · exact Or.inr ⟨i, hik, hhome, rfl⟩
  | restart i j pos =>
    obtain ⟨u, -, hstep⟩ := Option.bind_eq_some_iff.mp hstep
    cases hstep
    exact ⟨h.logged, h.framed⟩

abbrev Group.Reachable (originId : Origins ν) : Group ν → Prop :=
  Reach (· = empty) (step originId) fun _ _ => True

theorem Group.loopFree (hvalid : originId.Valid) (hs : Reachable originId s) :
    s.LoopFree originId := by
  refine hs.invariant ?_ ?_
  · rintro s rfl
    exact ⟨fun j t ht => by simp [empty] at ht, fun i j f hf => by simp [empty] at hf⟩
  · intro s a t _ ih _ hst
    exact ih.step hvalid hst

/-- In a group without changeset forwarding a node emits a whole transaction, one up to a change
that raises an error, or nothing of it, and only transactions that its own users executed; so none
comes back to the node that executed it, and each copy in a log was received from that node
directly. -/
theorem Group.no_replication_loop (hvalid : originId.Valid) (hs : Reachable originId s) :
    (∀ i j, ∀ f ∈ s.sent i j, f.messages ≠ [] →
      f.Framed ∧ f.txn.home = i ∧ f.txn.home ≠ j) ∧
    ∀ j, ∀ t ∈ s.net.log j, t.home = j ∨
      ∃ i, i ≠ j ∧ t.home = i ∧ t.header.originId = originId j i := by
  have hfree := loopFree hvalid hs
  constructor
  · intro i j f hf hne
    obtain ⟨hij, hempty | ⟨hhome, hframe⟩⟩ := hfree.framed i j f hf
    · exact absurd hempty hne
    · exact ⟨hframe, hhome, hhome ▸ hij⟩
  · intro j t ht
    rcases hfree.logged j t ht with ⟨hhome, -⟩ | hdirect
    · exact Or.inl hhome
    · exact Or.inr hdirect

def pingPong : List (GroupAction Bool) :=
  [.execute true localOnlyTxn [] false, .decode true false (bareWalsender false),
    .apply false true [(localOnlyTxn, [])], .decode false true (bareWalsender false)]

/-- The transaction is sent once as a whole, and nothing of its copy is sent back. -/
theorem pingPong_no_loop :
    ∃ s : Group Bool, Group.Reachable (fun _ _ => 1) s ∧
      (∃ f ∈ s.sent true false, f.messages ≠ [] ∧
        CompleteFrame f.ws f.txn.header f.txn.changes f.messages ∧ f.txn.home = true) ∧
      (∃ t ∈ s.net.log false, t.home = true) ∧ ∀ f ∈ s.sent false true, f.messages = [] := by
  have hvalid : Origins.Valid (fun _ _ : Bool => 1) := fun _ _ =>
    (by decide : (1 : RepOriginId) ≠ invalidRepOriginId ∧ (1 : RepOriginId) ≠ doNotReplicateId)
  obtain ⟨s, hs, ⟨hsent, hlog⟩, hback⟩ := Reach.exists_of_run
    (.init rfl : Group.Reachable (fun _ _ => 1) (Group.empty : Group Bool)) pingPong
    (fun s => ((∃ f ∈ s.sent true false, f.messages ≠ [] ∧ f.error = none) ∧
      ∃ t ∈ s.net.log false, t.home = true) ∧ ∀ f ∈ s.sent false true, f.messages = [])
    (by decide +kernel)
  obtain ⟨f, hf, hne, hnone⟩ := hsent
  obtain ⟨hframe, hhome, -⟩ := (Group.no_replication_loop hvalid hs).1 true false f hf hne
  rw [Frame.Framed, hnone] at hframe
  exact ⟨s, hs, ⟨f, hf, hne, hframe, hhome⟩, hlog, hback⟩

/-! ### A row that does not fit into a message -/

def docsWalsender : Walsender :=
  { bareWalsender false with data := ⟨⟨false, true, false⟩, false, 0, 0, 0, 0, fun _ _ => true⟩ }

/-- A table with two columns of type `text`. -/
def docs : LocalRelation where
  nspname := ⟨.empty, by decide⟩
  relname := ⟨.empty, by decide⟩
  desc := List.replicate 2 ⟨false, false, false, -1, 25, ⟨'b', 0, 2414⟩⟩
  relid := 1
  relnamespace := 1

def docsTxn : Txn := { localOnlyTxn with originId := invalidRepOriginId }

/-- The transaction deletes a row and inserts one with two values of the given bytes. -/
def docsChanges (d : Value) : Changes :=
  [(docs, .delete none), (docs, .insert [.inline d, .inline d])]

theorem pgDecodeChange_docs {d : Value} (hd : maxAllocSize ≤ 2 * d.length) :
    pgDecodeChange docsWalsender docsTxn docs (.insert [.inline d, .inline d]) =
      .error .cannotEnlargeBuffer := by
  have hbytes : ∃ bs, changeBytes docsWalsender.data.toOutputData docsWalsender.io docs.toTable
      (.insert [.inline d, .inline d]) = .ok bs ∧ 2 * d.length ≤ bs.length := by
    refine ⟨_, rfl, ?_⟩
    simp
    omega
  obtain ⟨bs, hbs, hlen⟩ := hbytes
  have hwrite : outputPluginWrite (.ok bs) = .error .cannotEnlargeBuffer :=
    if_neg (Nat.not_lt.mpr (hd.trans hlen))
  change Except.map some (outputPluginWrite _) = _
  rw [hbs, hwrite]
  rfl

/-- Two values of 512 MB each end the walsender after BEGIN and the deletion: the peer has a
beginning of the transaction and never its COMMIT. -/
theorem Group.sends_beginning :
    ∃ s : Group Bool, Reachable (fun _ _ => 1) s ∧ ∃ f ∈ s.sent true false,
      f.messages.length = 2 ∧ ¬CompleteFrame f.ws f.txn.header f.txn.changes f.messages := by
  obtain ⟨d, hd⟩ : ∃ d : Value, maxAllocSize ≤ 2 * d.length :=
    ⟨List.replicate (2 ^ 29) 97, by rw [List.length_replicate]; decide⟩
  have hexecute : Reachable (fun _ _ => 1) _ :=
    .step (.init rfl) trivial (a := .execute true docsTxn (docsChanges d) false) rfl
  have hdecode : Reachable (fun _ _ => 1) _ :=
    .step hexecute trivial (a := .decode true false docsWalsender) rfl
  refine ⟨_, hdecode, _, List.mem_singleton.mpr rfl, ?_, ?_⟩
  · change (decodeTxn docsWalsender docsTxn (docsChanges d)).1.length = 2
    rw [decodeTxn, docsChanges, decodeChanges, decodeChanges, pgDecodeChange_docs hd]
    rfl
  · rintro ⟨first, body, last, -, -, hbody, -⟩
    change List.Forall₂ (fun rc m => pgDecodeChange docsWalsender docsTxn rc.1 rc.2 = .ok (some m))
      (docsChanges d) body at hbody
    obtain - | ⟨-, - | ⟨hinsert, -⟩⟩ := hbody
    rw [pgDecodeChange_docs hd] at hinsert
    cases hinsert

end Pgactive.Stream
