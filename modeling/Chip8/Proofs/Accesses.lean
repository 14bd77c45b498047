import Mathlib.Tactic.Common
import Chip8.Memory

/-!
Memory one access after the other.

An access names a number of bytes from an address on. It is legal or not as a whole, whatever the
memory holds: if it is not, then it names itself in its fault and nothing happens; if it is, then it
reads all of its bytes or overwrites all of them. So a byte is what the last legal access that
overwrote it has left there, and zero if there was none, and an access to several bytes does what
accesses to each of them do one after the other.

* `access_of_legal`, `access_of_illegal`: what an access does;
* `Memory.LastWritten`, `lastWritten_iff`: every byte is the one that was last written there;
* `accessAll_singles`, `responses_reads`: an access taken byte by byte;
* `access_all_or_nothing`: all of this together.
-/

namespace Chip8.Memory

/-! ### Accesses -/

/-- What can be asked of a memory. -/
inductive Access where
  /-- The byte at an address. -/
  | read (a : Nat)
  /-- The word of two bytes. -/
  | readWord (a : Nat)
  /-- A number of bytes, in an array of that size. -/
  | readArray (a count : Nat)
  /-- A number of bytes, as a list. -/
  | slice (a length : Nat)
  /-- Whether a number of bytes is there. -/
  | check (a length : Nat)
  /-- Overwrites a byte. -/
  | write (a : Nat) (b : UInt8)
  /-- Overwrites two bytes by those of a word. -/
  | writeWord (a : Nat) (w : UInt16)
  /-- Overwrites as many bytes as there are data. -/
  | writeSlice (a : Nat) (data : List UInt8)
  deriving DecidableEq

/-- What an access responds, if it does not fail. -/
inductive Response where
  | done
  | byte (b : UInt8)
  | word (w : UInt16)
  | bytes (bs : List UInt8)
  deriving DecidableEq

/-- The more significant byte of a word and the less significant one, as digits of its number. -/
def digits (w : UInt16) : List UInt8 :=
  [UInt8.ofNat (w.toNat / 256), UInt8.ofNat (w.toNat % 256)]

namespace Access

/-- The address of the first byte. -/
def start : Access → Nat
  | read a | readWord a | readArray a _ | slice a _ | check a _ | write a _ | writeWord a _
  | writeSlice a _ => a

/-- The number of bytes. -/
def length : Access → Nat
  | read _ | write .. => 1
  | readWord _ | writeWord .. => 2
  | readArray _ n | slice _ n | check _ n => n
  | writeSlice _ data => data.length

/-- The access responds with the bytes that it names. -/
def Reads : Access → Prop
  | read _ | readWord _ | readArray .. | slice .. => True
  | check .. | write .. | writeWord .. | writeSlice .. => False

/-- What the access overwrites its bytes with, if it does. -/
def data? : Access → Option (List UInt8)
  | write _ b => some [b]
  | writeWord _ w => some (digits w)
  | writeSlice _ data => some data
  | read _ | readWord _ | readArray .. | slice .. | check .. => none

/-- The access is legal, and overwrites the byte at `a` by `b`. -/
def Writes (c : Access) (a : Nat) (b : UInt8) : Prop :=
  InRange c.start c.length ∧
    ∃ data ∈ c.data?, c.start ≤ a ∧ data[a - c.start]? = some b

/-- The same access taken byte by byte. -/
def singles (c : Access) : List Access :=
  match c.data? with
  | some data => List.zipWith write (List.range' c.start data.length) data
  | none => (List.range' c.start c.length).map read

end Access

/-- The bytes that a response shows; those of a word are its digits. -/
def Response.shown : Response → List UInt8
  | done => []
  | byte b => [b]
  | word w => digits w
  | bytes bs => bs

/-- The memory after a store: the one that it leaves, or as it was if the store fails. -/
def stored (m : Memory) : Except Fault Memory → Except Fault Response × Memory
  | .ok m' => (.ok .done, m')
  | .error f => (.error f, m)

/-- Does what an access asks. -/
def access (m : Memory) : Access → Except Fault Response × Memory
  | .read a => ((m.read a).map .byte, m)
  | .readWord a => ((m.readWord a).map .word, m)
  | .readArray a count => ((m.readArray a count).map fun v => .bytes v.toList, m)
  | .slice a length => ((m.slice a length).map .bytes, m)
  | .check a length => ((check a length).map fun _ => .done, m)
  | .write a b => m.stored (m.write a b)
  | .writeWord a w => m.stored (m.writeWord a w)
  | .writeSlice a data => m.stored (m.writeSlice a data)

/-- The memory after a list of accesses. -/
def accessAll (m : Memory) (accesses : List Access) : Memory :=
  accesses.foldl (fun m c => (m.access c).2) m

/-- The responses to a list of accesses. -/
def responses : Memory → List Access → List (Except Fault Response)
  | _, [] => []
  | m, c :: rest => (m.access c).1 :: responses (m.access c).2 rest

variable {m : Memory} {c : Access} {a : Nat} {b : UInt8}

/-! ### One access -/

/-- The digits of a word are its two bytes. -/
lemma digits_eq (w : UInt16) : digits w = bytesOf w := by
  have hhigh : UInt8.ofNat (w.toNat / 256) = (w >>> 8).toUInt8 := by
    apply UInt8.toNat_inj.1
    simp [UInt16.toNat_shiftRight, Nat.shiftRight_eq_div_pow]
  have hlow : UInt8.ofNat (w.toNat % 256) = w.toUInt8 := by
    apply UInt8.toNat_inj.1
    simp
  rw [digits, hhigh, hlow, bytesOf]

lemma digits_wordOf (high low : UInt8) : digits (wordOf high low) = [high, low] := by
  have hlow := low.toNat_lt
  rw [digits, toNat_wordOf]
  congr 2
  · rw [show (high.toNat * 256 + low.toNat) / 256 = high.toNat by omega, UInt8.ofNat_toNat]
  · rw [show (high.toNat * 256 + low.toNat) % 256 = low.toNat by omega, UInt8.ofNat_toNat]

lemma length_of_mem_data? {data : List UInt8} (h : data ∈ c.data?) : data.length = c.length := by
  cases c <;> cases h <;> rfl

/-- An array of the right size takes what a slice gives. -/
lemma readArray_of_legal {count : Nat} (h : InRange a count) (m : Memory) :
    m.readArray a count = .ok (.ofFn fun k => m.byte (a + k)) := by
  rw [readArray, slice_eq_ok_iff.2 ⟨h, rfl⟩]
  refine congrArg Except.ok (Vector.ext fun k hk => ?_)
  simp

/-- **A legal access** overwrites its bytes by its data, if it has any, and if it is to read them
it responds with them. -/
theorem access_of_legal (h : InRange c.start c.length) (m : Memory) :
    ∃ response, m.access c = (.ok response, m.overwrite c.start (c.data?.getD [])) ∧
      (c.Reads → response.shown = List.ofFn fun k : Fin c.length => m.byte (c.start + k)) := by
  -- one case for each access: what it returns shows the bytes of its range, and what it writes
  -- is the overwriting with its own data, which is none for a read
  cases c with
  | read a =>
    change InRange a 1 at h
    have ha : a < memorySize := h.add_lt Nat.zero_lt_one
    have hread : m.read a = .ok (m.byte a) := by rw [read, dif_pos ha, byte, dif_pos ha]
    exact ⟨.byte (m.byte a), by rw [access, hread]; rfl, fun _ => rfl⟩
  | readWord a =>
    change InRange a 2 at h
    have hread : m.readWord a = .ok (wordOf (m.byte a) (m.byte (a + 1))) :=
      readWord_eq_ok_iff.2 ⟨h.resolve_left (by decide), rfl⟩
    exact ⟨.word _, by rw [access, hread]; rfl, fun _ => digits_wordOf _ _⟩
  | readArray a count =>
    change InRange a count at h
    refine ⟨.bytes _, by rw [access, readArray_of_legal h]; rfl, fun _ => ?_⟩
    exact Vector.toList_ofFn
  | slice a length =>
    change InRange a length at h
    have hslice : m.slice a length = .ok (List.ofFn fun k : Fin length => m.byte (a + k)) :=
      slice_eq_ok_iff.2 ⟨h, rfl⟩
    exact ⟨.bytes _, by rw [access, hslice]; rfl, fun _ => rfl⟩
  | check a length =>
    change InRange a length at h
    exact ⟨.done, by rw [access, check, if_pos h]; rfl, False.elim⟩
  | write a b =>
    change InRange a 1 at h
    have hwrite : m.write a b = .ok (m.overwrite a [b]) := writeSlice_eq_ok_iff.2 ⟨h, rfl⟩
    exact ⟨.done, by rw [access, hwrite]; rfl, False.elim⟩
  | writeWord a w =>
    change InRange a 2 at h
    have hwrite : m.writeWord a w = .ok (m.overwrite a (digits w)) :=
      writeSlice_eq_ok_iff.2 ⟨h, by rw [digits_eq]⟩
    exact ⟨.done, by rw [access, hwrite]; rfl, False.elim⟩
  | writeSlice a data =>
    change InRange a data.length at h
    have hwrite : m.writeSlice a data = .ok (m.overwrite a data) :=
      writeSlice_eq_ok_iff.2 ⟨h, rfl⟩
    exact ⟨.done, by rw [access, hwrite]; rfl, False.elim⟩

/-- **An illegal access** names itself in its fault, and changes nothing. -/
theorem access_of_illegal (h : ¬ InRange c.start c.length) (m : Memory) :
    m.access c = (.error (.outOfMemory c.start c.length), m) := by
  -- each access has a check of its own, but all of them refuse the same ranges
  cases c with
  | read a =>
    change ¬ InRange a 1 at h
    have ha : ¬ a < memorySize := fun ha => h (.inr ha)
    rw [access, read, dif_neg ha]
    rfl
  | readWord a =>
    change ¬ InRange a 2 at h
    have ha : memorySize < a + 2 := Nat.not_le.1 fun ha => h (.inr ha)
    rw [access, readWord_eq_error_iff.2 ⟨ha, rfl⟩]
    rfl
  | readArray a count =>
    change ¬ InRange a count at h
    rw [access, readArray, slice_eq_error_iff.2 ⟨h, rfl⟩]
    rfl
  | slice a length =>
    change ¬ InRange a length at h
    rw [access, slice_eq_error_iff.2 ⟨h, rfl⟩]
    rfl
  | check a length =>
    change ¬ InRange a length at h
    rw [access, check, if_neg h]
    rfl
  | write a b =>
    change ¬ InRange a 1 at h
    have hwrite : m.write a b = .error (.outOfMemory a 1) := writeSlice_eq_error_iff.2 ⟨h, rfl⟩
    rw [access, hwrite]
    rfl
  | writeWord a w =>
    change ¬ InRange a 2 at h
    have hwrite : m.writeWord a w = .error (.outOfMemory a 2) :=
      writeSlice_eq_error_iff.2 ⟨h, rfl⟩
    rw [access, hwrite]
    rfl
  | writeSlice a data =>
    change ¬ InRange a data.length at h
    rw [access, writeSlice_eq_error_iff.2 ⟨h, rfl⟩]
    rfl

lemma isOk_access_iff : (m.access c).1.isOk ↔ InRange c.start c.length := by
  by_cases h : InRange c.start c.length
  · obtain ⟨response, haccess, -⟩ := access_of_legal h m
    rw [haccess]
    exact iff_of_true rfl h
  · rw [access_of_illegal h]
    exact iff_of_false Bool.false_ne_true h

/-- A legal access leaves its data in the bytes that it names, and the other bytes as they were. -/
lemma byte_access (h : InRange c.start c.length) {data : List UInt8} (hdata : data ∈ c.data?)
    (m : Memory) (a : Nat) :
    (m.access c).2.byte a =
      if c.start ≤ a ∧ a < c.start + c.length then data.getD (a - c.start) 0 else m.byte a := by
  obtain ⟨response, haccess, -⟩ := access_of_legal h m
  have hlength := length_of_mem_data? hdata
  rw [haccess, Option.mem_def.1 hdata, Option.getD_some]
  rcases h with hnone | hfits
  · -- nothing is overwritten, also past the end of memory
    obtain rfl : data = [] := List.length_eq_zero_iff.1 (hlength.trans hnone)
    rw [overwrite, if_neg (by omega)]
  · rw [byte_overwrite _ _ _ _ (by omega), hlength]

lemma access_of_data?_eq_none (h : c.data? = none) (m : Memory) : (m.access c).2 = m := by
  by_cases hlegal : InRange c.start c.length
  · obtain ⟨response, haccess, -⟩ := access_of_legal hlegal m
    rw [haccess, h]
    rfl
  · rw [access_of_illegal hlegal]

lemma byte_access_of_writes (h : c.Writes a b) (m : Memory) : (m.access c).2.byte a = b := by
  obtain ⟨hlegal, data, hdata, hle, hget⟩ := h
  obtain ⟨hlt, rfl⟩ := List.getElem?_eq_some_iff.1 hget
  have hlength := length_of_mem_data? hdata
  rw [byte_access hlegal hdata, if_pos (by omega), ← List.getElem_eq_getD]

lemma byte_access_of_not_writes (h : ∀ b, ¬ c.Writes a b) (m : Memory) :
    (m.access c).2.byte a = m.byte a := by
  by_cases hlegal : InRange c.start c.length
  · cases hdata : c.data? with
    | none => rw [access_of_data?_eq_none hdata]
    | some data =>
      have hlength := length_of_mem_data? hdata
      rw [byte_access hlegal hdata, if_neg]
      rintro ⟨hle, hlt⟩
      have hplace : a - c.start < data.length := by omega
      exact h _ ⟨hlegal, data, hdata, hle, List.getElem?_eq_getElem hplace⟩
  · rw [access_of_illegal hlegal]

/-! ### Accesses one after the other -/

@[simp] lemma accessAll_cons (m : Memory) (c : Access) (rest : List Access) :
    m.accessAll (c :: rest) = (m.access c).2.accessAll rest := rfl

lemma accessAll_append (m : Memory) (first rest : List Access) :
    m.accessAll (first ++ rest) = (m.accessAll first).accessAll rest :=
  List.foldl_append

@[simp] lemma responses_cons (m : Memory) (c : Access) (rest : List Access) :
    m.responses (c :: rest) = (m.access c).1 :: (m.access c).2.responses rest := rfl

/-- The byte that was last written at an address by a list of accesses: by the last legal one that
overwrote it, or else zero. -/
inductive LastWritten (a : Nat) : List Access → UInt8 → Prop where
  /-- No access writes there. -/
  | never {accesses : List Access} (untouched : ∀ c ∈ accesses, ∀ b, ¬ c.Writes a b) :
      LastWritten a accesses 0
  /-- An access writes there, and none of those behind it does. -/
  | last {first rest : List Access} {c : Access} {b : UInt8} (writes : c.Writes a b)
      (untouched : ∀ c ∈ rest, ∀ b, ¬ c.Writes a b) :
      LastWritten a (first ++ c :: rest) b

/-- Where no access writes, a byte stays. -/
theorem byte_accessAll_of_untouched {accesses : List Access}
    (untouched : ∀ c ∈ accesses, ∀ b, ¬ c.Writes a b) (m : Memory) :
    (m.accessAll accesses).byte a = m.byte a := by
  induction accesses generalizing m with
  | nil => rfl
  | cons c rest ih =>
    rw [List.forall_mem_cons] at untouched
    rw [accessAll_cons, ih untouched.2, byte_access_of_not_writes untouched.1]

/-- **Every address was last written with some byte**, if only with the zero of the start. -/
theorem exists_lastWritten (a : Nat) (accesses : List Access) : ∃ b, LastWritten a accesses b := by
  induction accesses with
  | nil => exact ⟨0, .never fun c hc => absurd hc List.not_mem_nil⟩
  | cons c rest ih =>
    obtain ⟨b, h⟩ := ih
    -- a later writer stays the last one; without one it is the first access, if that writes at all
    cases h with
    | @last first rest c' b writes untouched =>
      have hlast : LastWritten a ((c :: first) ++ c' :: rest) b := .last writes untouched
      exact ⟨b, hlast⟩
    | never untouched =>
      by_cases hwrites : ∃ b, c.Writes a b
      · obtain ⟨b, writes⟩ := hwrites
        have hlast : LastWritten a ([] ++ c :: rest) b := .last writes untouched
        exact ⟨b, hlast⟩
      · exact ⟨0, .never (List.forall_mem_cons.2 ⟨not_exists.1 hwrites, untouched⟩)⟩

/-- **A byte is the one that was last written there.** -/
theorem lastWritten_iff {accesses : List Access} :
    LastWritten a accesses b ↔ (blank.accessAll accesses).byte a = b := by
  have hbyte {b : UInt8} (h : LastWritten a accesses b) :
      (blank.accessAll accesses).byte a = b := by
    cases h with
    | never untouched => rw [byte_accessAll_of_untouched untouched, byte_blank]
    | last writes untouched =>
      rw [accessAll_append, accessAll_cons, byte_accessAll_of_untouched untouched,
        byte_access_of_writes writes]
  refine ⟨hbyte, ?_⟩
  rintro rfl
  obtain ⟨b, h⟩ := exists_lastWritten a accesses
  exact hbyte h ▸ h

/-! ### Byte by byte -/

lemma access_read (h : a < memorySize) (m : Memory) :
    m.access (.read a) = (.ok (.byte (m.byte a)), m) := by
  rw [access, read, dif_pos h, byte, dif_pos h]
  rfl

lemma access_write (h : a < memorySize) (m : Memory) (b : UInt8) :
    m.access (.write a b) = (.ok .done, m.put a b) := by
  have hwrite : m.write a b = .ok (m.put a b) := writeSlice_eq_ok_iff.2 ⟨.inr h, rfl⟩
  rw [access, hwrite]
  rfl

/-- Reading byte after byte responds with each of them and changes nothing. -/
lemma accessAll_reads {length : Nat} (h : InRange a length) (m : Memory) :
    m.accessAll ((List.range' a length).map .read) = m ∧
      m.responses ((List.range' a length).map .read) =
        (List.ofFn fun k : Fin length => m.byte (a + k)).map (.ok ∘ .byte) := by
  induction length generalizing a with
  | zero => exact ⟨rfl, rfl⟩
  | succ length ih =>
    have hle : a + (length + 1) ≤ memorySize := h.resolve_left (Nat.succ_ne_zero length)
    obtain ⟨hmemory, hresponses⟩ := ih (a := a + 1) (.inr (by omega))
    rw [List.range'_succ, List.map_cons, accessAll_cons, responses_cons,
      access_read (by omega), hmemory, hresponses, List.ofFn_succ, List.map_cons]
    refine ⟨rfl, congrArg₂ _ rfl ?_⟩
    simp only [Fin.val_succ, Nat.add_right_comm, Nat.add_assoc]

/-- Writing byte after byte overwrites all of them. -/
lemma accessAll_writes {data : List UInt8} (h : InRange a data.length) (m : Memory) :
    m.accessAll (List.zipWith .write (List.range' a data.length) data) = m.overwrite a data ∧
      m.responses (List.zipWith .write (List.range' a data.length) data) =
        data.map fun _ => .ok .done := by
  induction data generalizing a m with
  | nil => exact ⟨rfl, rfl⟩
  | cons b rest ih =>
    have hle : a + (rest.length + 1) ≤ memorySize := h.resolve_left (Nat.succ_ne_zero _)
    obtain ⟨hmemory, hresponses⟩ := ih (a := a + 1) (.inr (by omega)) (m.put a b)
    rw [List.length_cons, List.range'_succ, List.zipWith_cons_cons, accessAll_cons, responses_cons,
      access_write (by omega), hmemory, hresponses]
    exact ⟨rfl, rfl⟩

/-- **A legal access leaves what its single ones leave**, and all of these succeed. -/
theorem accessAll_singles (h : InRange c.start c.length) (m : Memory) :
    m.accessAll c.singles = (m.access c).2 ∧ ∀ r ∈ m.responses c.singles, r.isOk := by
  obtain ⟨response, haccess, -⟩ := access_of_legal h m
  rw [Access.singles, haccess]
  cases hdata : c.data? with
  | none =>
    obtain ⟨hmemory, hresponses⟩ := accessAll_reads h m
    refine ⟨hmemory, ?_⟩
    rw [hresponses, List.forall_mem_map]
    exact fun _ _ => rfl
  | some data =>
    obtain ⟨hmemory, hresponses⟩ := accessAll_writes (length_of_mem_data? hdata ▸ h) m
    refine ⟨hmemory, ?_⟩
    rw [hresponses, List.forall_mem_map]
    exact fun _ _ => rfl

/-- **A legal access that reads** responds with what its single ones respond with. -/
theorem responses_reads (h : InRange c.start c.length) (hreads : c.Reads) {response : Response}
    (hresponse : (m.access c).1 = .ok response) :
    response.shown = (List.ofFn fun k : Fin c.length => m.byte (c.start + k)) ∧
      m.responses c.singles = response.shown.map (.ok ∘ .byte) := by
  obtain ⟨response', haccess, hshown⟩ := access_of_legal h m
  obtain rfl : response' = response := by simpa [haccess] using hresponse
  have hdata : c.data? = none := by cases c <;> first | rfl | exact hreads.elim
  refine ⟨hshown hreads, ?_⟩
  rw [hshown hreads, Access.singles, hdata]
  exact (accessAll_reads h m).2

/-! ### All or nothing -/

/-- **Memory is accessed all or nothing.** After any accesses to a blank memory, the next one
succeeds exactly if it is empty or ends within memory; if it fails, then it names its address and
its length, and nothing changes. If it overwrites its bytes, then by its data, and no other byte
changes; otherwise nothing changes. If it reads its bytes, then it responds with those that were
last written there. An access that succeeds does the same as accesses to each of its bytes, one
after the other. -/
theorem access_all_or_nothing (accesses : List Access) (c : Access) :
    let m := blank.accessAll accesses
    ((m.access c).1.isOk ↔ c.length = 0 ∨ c.start + c.length ≤ 4096) ∧
    ((m.access c).1.isOk = false → m.access c = (.error (.outOfMemory c.start c.length), m)) ∧
    (∀ data, c.data? = some data → (m.access c).1.isOk →
      data.length = c.length ∧
      ∀ a, (m.access c).2.byte a =
        if c.start ≤ a ∧ a < c.start + c.length then data.getD (a - c.start) 0 else m.byte a) ∧
    (c.data? = none → (m.access c).2 = m) ∧
    (∀ response, c.Reads → (m.access c).1 = .ok response →
      response.shown.length = c.length ∧
      (∀ k < c.length, ∀ b,
        response.shown[k]? = some b ↔ LastWritten (c.start + k) accesses b) ∧
      m.responses c.singles = response.shown.map (.ok ∘ .byte)) ∧
    ((m.access c).1.isOk →
      m.accessAll c.singles = (m.access c).2 ∧ ∀ r ∈ m.responses c.singles, r.isOk) := by
  intro m
  refine ⟨isOk_access_iff, ?_, ?_, ?_, ?_, ?_⟩
  · intro h
    have hillegal : ¬ InRange c.start c.length := fun hlegal =>
      Bool.false_ne_true (h.symm.trans (isOk_access_iff.2 hlegal))
    exact access_of_illegal hillegal m
  · intro data hdata h
    exact ⟨length_of_mem_data? hdata, byte_access (isOk_access_iff.1 h) hdata m⟩
  · intro h
    exact access_of_data?_eq_none h m
  · intro response hreads h
    -- only a legal access is answered, and what it shows is what is in memory
    have hlegal : InRange c.start c.length := isOk_access_iff.1 (by rw [h]; rfl)
    obtain ⟨hshown, hsingles⟩ := responses_reads hlegal hreads h
    refine ⟨by rw [hshown, List.length_ofFn], ?_, hsingles⟩
    intro k hk b
    rw [hshown, lastWritten_iff, List.getElem?_eq_getElem (by rwa [List.length_ofFn]),
      Option.some.injEq, List.getElem_ofFn]
  · intro h
    exact accessAll_singles (isOk_access_iff.1 h) m

/-- Accesses at the end of memory: a word overwrites a part of a slice, a slice that does not fit is
refused, and a byte overwrites a part of the word. -/
def straddling : List Access :=
  [.writeSlice 0xFFD [1, 2, 3], .writeWord 0xFFE 0x1234, .writeSlice 0xFFE [7, 8, 9],
    .write 0xFFF 0x56]

/-- What is read afterwards is the first byte of the slice, that of the word, and the single byte,
also one by one. Nothing of the slice that was refused is there, and it is refused again. -/
theorem access_all_or_nothing_straddling :
    let m := blank.accessAll straddling
    (m.access (.readArray 0xFFD 3)).1 = .ok (.bytes [1, 0x12, 0x56]) ∧
    LastWritten 0xFFD straddling 1 ∧ LastWritten 0xFFE straddling 0x12 ∧
    LastWritten 0xFFF straddling 0x56 ∧
    m.responses [.read 0xFFD, .read 0xFFE, .read 0xFFF] =
      [.ok (.byte 1), .ok (.byte 0x12), .ok (.byte 0x56)] ∧
    m.access (.writeSlice 0xFFE [7, 8, 9]) = (.error (.outOfMemory 0xFFE 3), m) ∧
    (m.access (.writeWord 0xFFE 0xABCD)).2.byte 0xFFF = 0xCD ∧
    (m.access (.writeWord 0xFFE 0xABCD)).2.byte 0xFFD = m.byte 0xFFD := by
  intro m
  obtain ⟨-, -, -, -, hread, -⟩ := access_all_or_nothing straddling (.readArray 0xFFD 3)
  obtain ⟨hfits, hrefused, -⟩ := access_all_or_nothing straddling (.writeSlice 0xFFE [7, 8, 9])
  obtain ⟨hlegal, -, hword, -⟩ := access_all_or_nothing straddling (.writeWord 0xFFE 0xABCD)
  have hresponse : (m.access (.readArray 0xFFD 3)).1 = .ok (.bytes [1, 0x12, 0x56]) := by
    decide +kernel
  obtain ⟨-, hlast, hsingles⟩ := hread _ trivial hresponse
  have hfails : (m.access (.writeSlice 0xFFE [7, 8, 9])).1.isOk = false :=
    Bool.eq_false_iff.2 fun h => absurd (hfits.1 h) (by decide)
  obtain ⟨-, hbytes⟩ := hword _ rfl (hlegal.2 (by decide))
  exact ⟨hresponse, (hlast 0 (by decide) 1).1 rfl, (hlast 1 (by decide) 0x12).1 rfl,
    (hlast 2 (by decide) 0x56).1 rfl, hsingles, hrefused hfails,
    (hbytes 0xFFF).trans (by decide), (hbytes 0xFFD).trans (if_neg (by decide))⟩

end Chip8.Memory
