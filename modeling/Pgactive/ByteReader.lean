import Mathlib.Data.List.Basic
import Mathlib.Tactic.Ring

/-!
# Reading byte strings

Integers have the most significant byte first. `Reads p bs a` says that `p` consumes exactly the
bytes `bs` and returns `a`, whatever follows them, so that a message is treated field by field.
`ReadsAll` is for readers that look at the end of the input.
-/

namespace ByteReader

variable {ε α β : Type}

def beBytes : ℕ → ℕ → List UInt8
  | 0, _ => []
  | n + 1, x => UInt8.ofNat (x / 256 ^ n) :: beBytes n x

/-- The number that a byte string spells, most significant byte first. -/
def ofBe (bs : List UInt8) : ℕ := bs.foldl (fun acc b => acc * 256 + b.toNat) 0

@[simp] theorem beBytes_length (n x : ℕ) : (beBytes n x).length = n := by
  induction n with
  | zero => rfl
  | succ n ih => simp [beBytes, ih]

theorem foldl_beBytes (n x acc : ℕ) :
    (beBytes n x).foldl (fun acc b => acc * 256 + b.toNat) acc = acc * 256 ^ n + x % 256 ^ n := by
  induction n generalizing acc with
  | zero => simp [beBytes, Nat.mod_one]
  | succ n ih =>
    have hmod : x % 256 ^ (n + 1) = x % 256 ^ n + 256 ^ n * (x / 256 ^ n % 256) := by
      rw [pow_succ, Nat.mod_mul]
    simp only [beBytes, List.foldl_cons, ih, UInt8.toNat_ofNat']
    rw [hmod]
    ring

theorem ofBe_beBytes (n x : ℕ) : ofBe (beBytes n x) = x % 256 ^ n := by
  simpa [ofBe] using foldl_beBytes n x 0

abbrev Reader (ε α : Type) := StateT (List UInt8) (Except ε) α

/-- The reader consumes `bs` and returns `a`, whatever follows. -/
def Reads (p : Reader ε α) (bs : List UInt8) (a : α) : Prop :=
  ∀ rest, p (bs ++ rest) = .ok (a, rest)

def ReadsAll (p : Reader ε α) (bs : List UInt8) (a : α) : Prop := p bs = .ok (a, [])

variable {p : Reader ε α} {bs : List UInt8} {a : α}

theorem Reads.readsAll (h : Reads p bs a) : ReadsAll p bs a := by
  have := h []
  rwa [List.append_nil] at this

theorem Reads.pure (a : α) : Reads (Pure.pure a : Reader ε α) [] a := fun _ => rfl

variable {f : α → Reader ε β} {as : List UInt8} {b : β}

theorem Reads.bind (hp : Reads p as a) (hf : Reads (f a) bs b) : Reads (p >>= f) (as ++ bs) b := by
  intro rest
  have hstep : (p >>= f) (as ++ bs ++ rest) =
      (p (as ++ (bs ++ rest)) >>= fun x => f x.1 x.2) := by
    rw [List.append_assoc]
    rfl
  rw [hstep, hp]
  exact hf rest

variable {input : List UInt8}

theorem bind_eq_ok_iff {left : List UInt8} :
    (p >>= f) input = .ok (b, left) ↔
      ∃ a mid, p input = .ok (a, mid) ∧ f a mid = .ok (b, left) := by
  have hstep : (p >>= f) input = (p input >>= fun x => f x.1 x.2) := rfl
  rw [hstep]
  cases p input with
  | error e =>
    constructor
    · intro h
      cases h
    · rintro ⟨a, mid, h, -⟩
      cases h
  | ok found =>
    obtain ⟨a, mid⟩ := found
    constructor
    · exact fun h => ⟨a, mid, rfl, h⟩
    · rintro ⟨a', mid', ⟨⟩, h⟩
      exact h

theorem Reads.bind_nil (hp : Reads p as a) (hf : Reads (f a) [] b) : Reads (p >>= f) as b := by
  have h := hp.bind hf
  rwa [List.append_nil] at h

theorem Reads.bind_all (hp : Reads p as a) (hf : ReadsAll (f a) bs b) :
    ReadsAll (p >>= f) (as ++ bs) b := by
  have hstep : (p >>= f) (as ++ bs) = (p (as ++ bs) >>= fun x => f x.1 x.2) := rfl
  unfold ReadsAll
  rw [hstep, hp]
  exact hf

theorem Reads.map (hp : Reads p bs a) (f : α → β) : Reads (f <$> p) bs (f a) := by
  intro rest
  have hstep : (f <$> p) (bs ++ rest) = (p (bs ++ rest) >>= fun x => .ok (f x.1, x.2)) := rfl
  rw [hstep, hp]
  rfl

theorem ReadsAll.map (hp : ReadsAll p bs a) (f : α → β) : ReadsAll (f <$> p) bs (f a) := by
  have hstep : (f <$> p) bs = (p bs >>= fun x => .ok (f x.1, x.2)) := rfl
  unfold ReadsAll at hp ⊢
  rw [hstep, hp]
  rfl

def Leaves (p : Reader ε α) (input rest : List UInt8) : Prop :=
  ∀ a left, p input = .ok (a, left) → left = rest

theorem Reads.leaves (h : Reads p bs a) (rest : List UInt8) : Leaves p (bs ++ rest) rest := by
  intro b left hok
  rw [h rest] at hok
  cases hok
  rfl

theorem Reads.bind_apply (hp : Reads p as a) (f : α → Reader ε β) (input : List UInt8) :
    (p >>= f) (as ++ input) = f a input := by
  have hstep : (p >>= f) (as ++ input) = (p (as ++ input) >>= fun x => f x.1 x.2) := rfl
  rw [hstep, hp]
  rfl

theorem Reads.leaves_bind_iff (hp : Reads p as a) {rest : List UInt8} :
    Leaves (p >>= f) (as ++ input) rest ↔ Leaves (f a) input rest := by
  unfold Leaves
  rw [hp.bind_apply]

theorem leaves_map_iff {f : α → β} {rest : List UInt8} :
    Leaves (f <$> p) input rest ↔ Leaves p input rest := by
  have hstep : (f <$> p) input = (p input >>= fun x => .ok (f x.1, x.2)) := rfl
  unfold Leaves
  rw [hstep]
  cases hp : p input with
  | error e => simp [bind, Except.bind]
  | ok r => simp [bind, Except.bind, Prod.ext_iff]

def Refuses (p : Reader ε α) (bs : List UInt8) : Prop := ∀ rest, ∃ e, p (bs ++ rest) = .error e

theorem Refuses.bind (h : Refuses p bs) (f : α → Reader ε β) : Refuses (p >>= f) bs := by
  intro rest
  obtain ⟨e, he⟩ := h rest
  have hstep : (p >>= f) (bs ++ rest) = (p (bs ++ rest) >>= fun x => f x.1 x.2) := rfl
  exact ⟨e, by rw [hstep, he]; rfl⟩

theorem Refuses.map (h : Refuses p bs) (f : α → β) : Refuses (f <$> p) bs := by
  intro rest
  obtain ⟨e, he⟩ := h rest
  have hstep : (f <$> p) (bs ++ rest) = (p (bs ++ rest) >>= fun x => .ok (f x.1, x.2)) := rfl
  exact ⟨e, by rw [hstep, he]; rfl⟩

theorem Refuses.leaves (h : Refuses p bs) (input rest : List UInt8) :
    Leaves p (bs ++ input) rest := by
  obtain ⟨e, he⟩ := h input
  intro a left hok
  rw [he] at hok
  cases hok

variable (short : ε)

def takeBytes (n : ℕ) : Reader ε (List UInt8) := fun input =>
  if n ≤ input.length then .ok (input.take n, input.drop n) else .error short

theorem reads_takeBytes (bs : List UInt8) : Reads (takeBytes short bs.length) bs bs := by
  intro rest
  simp [takeBytes]

def readBe (n : ℕ) : Reader ε ℕ := ofBe <$> takeBytes short n

theorem reads_readBe (n x : ℕ) : Reads (readBe short n) (beBytes n x) (x % 256 ^ n) := by
  have h := (reads_takeBytes short (beBytes n x)).map ofBe
  rwa [beBytes_length, ofBe_beBytes] at h

def readByte : Reader ε UInt8 := fun input =>
  match input with
  | [] => .error short
  | b :: rest => .ok (b, rest)

theorem reads_readByte_bind {b : UInt8} {f : UInt8 → Reader ε α}
    (hf : Reads (f b) bs a) : Reads (readByte short >>= f) (b :: bs) a :=
  fun rest => hf rest

def readU16 : Reader ε UInt16 := UInt16.ofNat <$> readBe short 2

def readU32 : Reader ε UInt32 := UInt32.ofNat <$> readBe short 4

def readU64 : Reader ε UInt64 := UInt64.ofNat <$> readBe short 8

/-- The `n` low-order bytes of `x`, least significant first. -/
def leBytes (n x : ℕ) : List UInt8 := (beBytes n x).reverse

/-- Read an unsigned integer of `n` bytes, least significant first. -/
def readLe (n : ℕ) : Reader ε ℕ := (fun bs => ofBe bs.reverse) <$> takeBytes short n

theorem reads_readLe {n x : ℕ} (hx : x < 256 ^ n) : Reads (readLe short n) (leBytes n x) x := by
  have h := (reads_takeBytes short (leBytes n x)).map fun bs => ofBe bs.reverse
  rwa [leBytes, List.length_reverse, beBytes_length, List.reverse_reverse, ofBe_beBytes,
    Nat.mod_eq_of_lt hx] at h

theorem reads_readU16 (x : UInt16) : Reads (readU16 short) (beBytes 2 x.toNat) x := by
  have hlt : x.toNat < 256 ^ 2 := x.toNat_lt
  have h := (reads_readBe short 2 x.toNat).map UInt16.ofNat
  rwa [Nat.mod_eq_of_lt hlt, UInt16.ofNat_toNat] at h

theorem reads_readU32 (x : UInt32) : Reads (readU32 short) (beBytes 4 x.toNat) x := by
  have hlt : x.toNat < 256 ^ 4 := x.toNat_lt
  have h := (reads_readBe short 4 x.toNat).map UInt32.ofNat
  rwa [Nat.mod_eq_of_lt hlt, UInt32.ofNat_toNat] at h

theorem reads_readU64 (x : UInt64) : Reads (readU64 short) (beBytes 8 x.toNat) x := by
  have hlt : x.toNat < 256 ^ 8 := x.toNat_lt
  have h := (reads_readBe short 8 x.toNat).map UInt64.ofNat
  rwa [Nat.mod_eq_of_lt hlt, UInt64.ofNat_toNat] at h

end ByteReader
