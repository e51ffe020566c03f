import Pgactive.Scanf
import Pgactive.Stream.Wire

/-!
# Names of slots and replication origins

`pgactive_slot_name` and `pgactive_replident_name` put a node identifier and the oid of the local
database into a name, and two parsers take them out again. The longest slot names do not fit into
their buffer.
-/

namespace Pgactive.Names

open Scanf Pgactive.Stream

def nameDataLen : ℕ := 64

/-- `NameData`: a name and its terminator fit into `NAMEDATALEN` characters. -/
structure NameData where
  chars : List Char
  short : chars.length < nameDataLen
deriving DecidableEq

def slotNameFormat : List Directive :=
  text "pgactive_" ++ (.unsigned 32 :: (text "_" ++ (.unsigned 64 :: (text "_" ++ (.unsigned 32 ::
    (text "_" ++ (.unsigned 32 :: (text "__" ++ [.str]))))))))

def reporiginIdFormat : List Directive :=
  text "pgactive_" ++ (.unsigned 64 :: (text "_" ++ (.unsigned 32 :: (text "_" ++ (.unsigned 32 ::
    (text "_" ++ (.unsigned 32 :: (text "_" ++ [.str]))))))))

def emptyReplicationName : List Char := []

variable (remote : NodeId) (localDboid : UInt32)

def slotNameArgs : List Item :=
  [.num localDboid.toNat, .num remote.sysid.toNat, .num remote.timeline.toNat,
    .num remote.dboid.toNat, .str emptyReplicationName]

def slotName : NameData where
  chars := snprintf nameDataLen slotNameFormat (slotNameArgs remote localDboid)
  short := by
    unfold snprintf nameDataLen
    rw [List.length_take]
    omega

def replidentName : List Char :=
  printf reporiginIdFormat
    [.num remote.sysid.toNat, .num remote.timeline.toNat, .num remote.dboid.toNat,
      .num localDboid.toNat, .str emptyReplicationName]

/-- The error "could not parse slot name", for names of either kind. -/
inductive ParseError
  | couldNotParse (name : List Char)
deriving DecidableEq

/-- `pgactive_parse_slot_name`. Exactly four assignments exclude non-empty replication names. -/
def parseSlotName (sname : List Char) : Except ParseError (NodeId × UInt32) :=
  match sscanf slotNameFormat sname with
  | [.num localDboid, .num sysid, .num timeline, .num dboid] =>
    .ok (⟨.ofNat sysid, .ofNat timeline, .ofNat dboid⟩, .ofNat localDboid)
  | _ => .error (.couldNotParse sname)

def parseReplidentName (riname : List Char) : Except ParseError (NodeId × UInt32) :=
  match sscanf reporiginIdFormat riname with
  | [.num sysid, .num timeline, .num dboid, .num localDboid] =>
    .ok (⟨.ofNat sysid, .ofNat timeline, .ofNat dboid⟩, .ofNat localDboid)
  | _ => .error (.couldNotParse riname)

/-! ### What is cut off -/

theorem length_toDigits_uint32 (n : UInt32) : (Nat.toDigits 10 n.toNat).length ≤ 10 :=
  length_toDigits_le (by decide) (n.toNat_lt.trans (by decide))

theorem length_toDigits_uint64 (n : UInt64) : (Nat.toDigits 10 n.toNat).length ≤ 20 :=
  length_toDigits_le (by decide) (n.toNat_lt.trans (by decide))

def slotNameStem : List Char :=
  "pgactive_".toList ++ (Nat.toDigits 10 localDboid.toNat ++ ("_".toList ++
    (Nat.toDigits 10 remote.sysid.toNat ++ ("_".toList ++ (Nat.toDigits 10 remote.timeline.toNat ++
      ("_".toList ++ Nat.toDigits 10 remote.dboid.toNat))))))

theorem printf_empty :
    printf (text "__" ++ [.str]) [.str emptyReplicationName] = ['_', '_'] := rfl

theorem length_slotNameStem : (slotNameStem remote localDboid).length ≤ 62 := by
  have hlocal := length_toDigits_uint32 localDboid
  have hsysid := length_toDigits_uint64 remote.sysid
  have htimeline := length_toDigits_uint32 remote.timeline
  have hdboid := length_toDigits_uint32 remote.dboid
  have hfirst : "pgactive_".toList.length = 9 := by simp
  have hunderscore : "_".toList.length = 1 := by simp
  unfold slotNameStem
  rw [List.length_append, List.length_append, List.length_append, List.length_append,
    List.length_append, List.length_append, List.length_append, hfirst, hunderscore]
  omega

theorem slotName_chars_eq : (slotName remote localDboid).chars = slotNameStem remote localDboid ++
      ['_', '_'].take (63 - (slotNameStem remote localDboid).length) := by
  have hprint : printf slotNameFormat (slotNameArgs remote localDboid) =
      slotNameStem remote localDboid ++ ['_', '_'] := by
    unfold slotNameFormat slotNameArgs slotNameStem
    rw [printf_text, printf_unsigned, printf_text, printf_unsigned, printf_text, printf_unsigned,
      printf_text, printf_unsigned, printf_empty]
    simp only [List.append_assoc]
  have hlen := length_slotNameStem remote localDboid
  change (printf slotNameFormat (slotNameArgs remote localDboid)).take 63 = _
  rw [hprint, List.take_append, List.take_of_length_le (by omega)]

theorem slotName_chars :
    ∃ tail, (tail = ['_'] ∨ tail = ['_', '_']) ∧
      (slotName remote localDboid).chars = slotNameStem remote localDboid ++ tail := by
  have hlen := length_slotNameStem remote localDboid
  have hcut := slotName_chars_eq remote localDboid
  obtain hone | ⟨k, hk⟩ : 63 - (slotNameStem remote localDboid).length = 1 ∨
      ∃ k, 63 - (slotNameStem remote localDboid).length = k + 2 := by
    by_cases h : 63 - (slotNameStem remote localDboid).length = 1
    · exact .inl h
    · exact .inr ⟨63 - (slotNameStem remote localDboid).length - 2, by omega⟩
  · exact ⟨['_'], .inl rfl, by rw [hcut, hone]; rfl⟩
  · exact ⟨['_', '_'], .inr rfl, by rw [hcut, hk]; simp⟩

/-! ### Reading the names -/

theorem isDigit_head_underscore (input : List Char) :
    ∀ c ∈ ("_".toList ++ input).head?, c.isDigit = false := by
  rintro c ⟨⟩
  rfl

theorem sscanf_slotName :
    sscanf slotNameFormat (slotName remote localDboid).chars =
      [.num localDboid.toNat, .num remote.sysid.toNat, .num remote.timeline.toNat,
        .num remote.dboid.toNat] := by
  obtain ⟨tail, htail, hchars⟩ := slotName_chars remote localDboid
  have hend : sscanf (text "__" ++ [.str]) tail = [] := by
    obtain rfl | rfl := htail <;> rfl
  have hhead : ∀ c ∈ tail.head?, c.isDigit = false := by
    obtain rfl | rfl := htail
    · exact isDigit_head_underscore []
    · exact isDigit_head_underscore ['_']
  rw [hchars]
  unfold slotNameFormat slotNameStem
  simp only [List.append_assoc]
  rw [sscanf_text, sscanf_toDigits (by omega) localDboid.toNat_lt (isDigit_head_underscore _),
    sscanf_text, sscanf_toDigits (by omega) remote.sysid.toNat_lt (isDigit_head_underscore _),
    sscanf_text, sscanf_toDigits (by omega) remote.timeline.toNat_lt (isDigit_head_underscore _),
    sscanf_text, sscanf_toDigits (by omega) remote.dboid.toNat_lt hhead, hend]

theorem sscanf_replidentName :
    sscanf reporiginIdFormat (replidentName remote localDboid) =
      [.num remote.sysid.toNat, .num remote.timeline.toNat, .num remote.dboid.toNat,
        .num localDboid.toNat] := by
  unfold replidentName reporiginIdFormat
  simp only [printf_text, printf_unsigned]
  rw [sscanf_text, sscanf_toDigits (by omega) remote.sysid.toNat_lt (isDigit_head_underscore _),
    sscanf_text, sscanf_toDigits (by omega) remote.timeline.toNat_lt (isDigit_head_underscore _),
    sscanf_text, sscanf_toDigits (by omega) remote.dboid.toNat_lt (isDigit_head_underscore _),
    sscanf_text, sscanf_toDigits (by omega) localDboid.toNat_lt (isDigit_head_underscore _),
    sscanf_text]
  rfl

theorem parseSlotName_slotName :
    parseSlotName (slotName remote localDboid).chars = .ok (remote, localDboid) := by
  simp only [parseSlotName, sscanf_slotName, UInt32.ofNat_toNat, UInt64.ofNat_toNat]

theorem parseReplidentName_replidentName :
    parseReplidentName (replidentName remote localDboid) = .ok (remote, localDboid) := by
  simp only [parseReplidentName, sscanf_replidentName, UInt32.ofNat_toNat, UInt64.ofNat_toNat]

theorem slotName_inj {remote remote' : NodeId} {localDboid localDboid' : UInt32}
    (h : slotName remote localDboid = slotName remote' localDboid') :
    remote = remote' ∧ localDboid = localDboid' := by
  have hsame := parseSlotName_slotName remote localDboid
  rw [h, parseSlotName_slotName] at hsame
  cases hsame
  exact ⟨rfl, rfl⟩

theorem replidentName_inj {remote remote' : NodeId} {localDboid localDboid' : UInt32}
    (h : replidentName remote localDboid = replidentName remote' localDboid') :
    remote = remote' ∧ localDboid = localDboid' := by
  have hsame := parseReplidentName_replidentName remote localDboid
  rw [h, parseReplidentName_replidentName] at hsame
  cases hsame
  exact ⟨rfl, rfl⟩

/-- Parsing a slot name or an origin name gives back what it was made from, so that no two nodes
or databases share a name. -/
theorem parse_names :
    (∀ remote localDboid,
      parseSlotName (slotName remote localDboid).chars = .ok (remote, localDboid) ∧
        parseReplidentName (replidentName remote localDboid) = .ok (remote, localDboid)) ∧
      (∀ remote remote' localDboid localDboid',
        slotName remote localDboid = slotName remote' localDboid' →
          remote = remote' ∧ localDboid = localDboid') ∧
      ∀ remote remote' localDboid localDboid',
        replidentName remote localDboid = replidentName remote' localDboid' →
          remote = remote' ∧ localDboid = localDboid' := by
  refine ⟨fun remote localDboid => ⟨parseSlotName_slotName remote localDboid,
    parseReplidentName_replidentName remote localDboid⟩, ?_, ?_⟩
  · intro remote remote' localDboid localDboid' h
    exact slotName_inj h
  · intro remote remote' localDboid localDboid' h
    exact replidentName_inj h

/-- The longest slot name loses its last underscore. -/
example : (slotName ⟨0xffffffffffffffff, 0xffffffff, 0xffffffff⟩ 0xffffffff).chars =
    "pgactive_4294967295_18446744073709551615_4294967295_4294967295_".toList := by
  decide +kernel

end Pgactive.Names
