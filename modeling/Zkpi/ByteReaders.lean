import Zkpi.ByteText
import Zkpi.FallibleChecks

/-!
# Readers of byte strings

A reader takes a value from the front of a byte string and leaves the rest, or fails. Each reader
here has one lemma that says exactly which byte strings it takes which value from. Peeling a
sequence of readers with these lemmas gives both directions of a round trip at once: that what was
written is read back, and that what is read was written.
-/

namespace Zkpi.ByteReaders

open ByteText FallibleChecks List

abbrev Reader (E A : Type) := StateT Bytes (Except E) A

section Readers

variable {E A B : Type}

variable {read : Reader E A} {bytes rest : Bytes}

theorem read_bind_ok {next : A → Reader E B} : (read >>= next) bytes = .ok (value, rest) ↔
      ∃ first left, read bytes = .ok (first, left) ∧ next first left = .ok (value, rest) := by
  change (read bytes >>= fun result => next result.1 result.2) = _ ↔ _
  rw [bind_ok]
  exact Prod.exists

variable {value : A}

theorem read_pure_ok :
    (pure value : Reader E A) bytes = .ok (result, rest) ↔ result = value ∧ bytes = rest := by
  change Except.ok (value, bytes) = _ ↔ _
  rw [Except.ok.injEq, Prod.mk.injEq, eq_comm (a := value)]

def given (result : Except E A) : Reader E A := fun bytes => result.map fun value => (value, bytes)

theorem given_ok : given result bytes = .ok (value, rest) ↔ result = .ok value ∧ bytes = rest := by
  unfold given
  cases result with
  | error => simp only [Except.map, reduceCtorEq, false_and]
  | ok => simp only [Except.map, Except.ok.injEq, Prod.mk.injEq]

def failIf (condition : Prop) [Decidable condition] (error : E) : Reader E Unit :=
  given (refuseIf condition error)

variable {error : E}

theorem failIf_ok {condition : Prop} [Decidable condition] {value : Unit} :
    failIf condition error bytes = .ok (value, rest) ↔ ¬ condition ∧ bytes = rest := by
  rw [failIf, given_ok, refuseIf_ok]

def take (truncated : ℕ → E) (count : ℕ) : Reader E Bytes := fun bytes =>
  if bytes.length < count then .error (truncated bytes.length)
  else .ok (bytes.take count, bytes.drop count)

variable {truncated : ℕ → E} {count : ℕ}

theorem take_ok {value : Bytes} :
    take truncated count bytes = .ok (value, rest) ↔
      bytes = value ++ rest ∧ value.length = count := by
  unfold take
  constructor
  · intro h
    split at h
    · cases h
    · cases h
      exact ⟨(take_append_drop count bytes).symm, length_take_of_le (by omega)⟩
  · rintro ⟨rfl, rfl⟩
    rw [if_neg (by rw [length_append]; omega), take_left, drop_left]

def number (truncated : ℕ → E) (width : ℕ) : Reader E ℕ := do
  let bytes ← take truncated width
  pure (beNumber bytes)

theorem number_ok {width value : ℕ} :
    number truncated width bytes = .ok (value, rest) ↔
      bytes = beBytes width value ++ rest ∧ value < 256 ^ width := by
  unfold number
  rw [read_bind_ok]
  constructor
  · rintro ⟨first, _, hfirst, hvalue⟩
    obtain ⟨rfl, rfl⟩ := take_ok.mp hfirst
    obtain ⟨rfl, rfl⟩ := read_pure_ok.mp hvalue
    exact ⟨by rw [beBytes_beNumber], beNumber_lt first⟩
  · rintro ⟨rfl, hvalue⟩
    exact ⟨beBytes width value, rest, take_ok.mpr ⟨rfl, beBytes_length width value⟩,
      read_pure_ok.mpr ⟨(beNumber_beBytes hvalue).symm, rfl⟩⟩

def word (truncated : ℕ → E) : Reader E UInt64 := do
  let value ← number truncated 8
  pure (UInt64.ofNat value)

theorem word_ok {value : UInt64} :
    word truncated bytes = .ok (value, rest) ↔ bytes = beBytes 8 value.toNat ++ rest := by
  unfold word
  rw [read_bind_ok]
  constructor
  · rintro ⟨first, _, hfirst, hvalue⟩
    obtain ⟨rfl, hlt⟩ := number_ok.mp hfirst
    obtain ⟨rfl, rfl⟩ := read_pure_ok.mp hvalue
    rw [UInt64.toNat_ofNat', Nat.mod_eq_of_lt (show first < 2 ^ 64 from hlt)]
  · rintro rfl
    exact ⟨value.toNat, rest, number_ok.mpr ⟨rfl, value.toNat_lt⟩,
      read_pure_ok.mpr ⟨UInt64.ofNat_toNat.symm, rfl⟩⟩

def fixed (size : ℕ) (bytes : Bytes) : Option (List.Vector UInt8 size) :=
  if h : bytes.length = size then some ⟨bytes, h⟩ else none

theorem fixed_eq_some {size : ℕ} {value : List.Vector UInt8 size} :
    fixed size bytes = some value ↔ bytes = value.toList := by
  unfold fixed
  constructor
  · intro h
    split at h
    · cases h
      rfl
    · cases h
  · rintro rfl
    rw [dif_pos value.toList_length]
    rfl

def decoded (read : Reader E A) (decode : A → Option B) (error : E) : Reader E B := do
  let value ← read
  given (orRefuse (decode value) error)

theorem decoded_ok {decode : A → Option B} {value : B} :
    decoded read decode error bytes = .ok (value, rest) ↔
      ∃ raw, read bytes = .ok (raw, rest) ∧ decode raw = some value := by
  unfold decoded
  rw [read_bind_ok]
  constructor
  · rintro ⟨raw, _, hraw, hvalue⟩
    obtain ⟨hdecoded, rfl⟩ := given_ok.mp hvalue
    exact ⟨raw, hraw, orRefuse_ok.mp hdecoded⟩
  · rintro ⟨raw, hraw, hvalue⟩
    exact ⟨raw, rest, hraw, given_ok.mpr ⟨orRefuse_ok.mpr hvalue, rfl⟩⟩

/-- If bytes of a fixed length decode to a value only when they are the bytes written for it, then
the value is taken exactly from the byte strings that start with those. -/
theorem taken_ok {decode : Bytes → Option A}
    (h : ∀ raw, raw.length = count ∧ decode raw = some value ↔ raw = written) :
    decoded (take truncated count) decode error bytes = .ok (value, rest) ↔
      bytes = written ++ rest := by
  rw [decoded_ok]
  constructor
  · rintro ⟨raw, hraw, hvalue⟩
    obtain ⟨rfl, hlength⟩ := take_ok.mp hraw
    rw [(h raw).mp ⟨hlength, hvalue⟩]
  · rintro rfl
    obtain ⟨hlength, hvalue⟩ := (h written).mpr rfl
    exact ⟨written, take_ok.mpr ⟨rfl, hlength⟩, hvalue⟩

def digest (truncated : ℕ → E) : Reader E Digest32 :=
  decoded (take truncated 32) (fixed 32) (truncated 0)

theorem digest_ok {value : Digest32} :
    digest truncated bytes = .ok (value, rest) ↔ bytes = value.toList ++ rest := by
  apply taken_ok
  intro raw
  rw [fixed_eq_some, and_iff_right_iff_imp]
  rintro rfl
  exact value.toList_length

/-- Take values one after the other. -/
def many (read : Reader E A) : ℕ → Reader E (List A)
  | 0 => pure []
  | count + 1 => do
    let first ← read
    let others ← many read count
    pure (first :: others)

/-- If a reader takes valid values as they are written, then a list of them is taken as a list of
written valid values. -/
theorem many_ok {write : A → Bytes} {valid : A → Prop}
    (h : ∀ {bytes value rest}, read bytes = .ok (value, rest) ↔ bytes = write value ++ rest ∧ valid
      value) : many read count bytes = .ok (values, rest) ↔
      bytes = values.flatMap write ++ rest ∧ values.length = count ∧
        ∀ value ∈ values, valid value := by
  induction count generalizing bytes values rest with
  | zero =>
    rw [many, read_pure_ok]
    constructor
    · rintro ⟨rfl, rfl⟩
      exact ⟨rfl, rfl, fun _ hmem => nomatch hmem⟩
    · rintro ⟨rfl, hlength, _⟩
      obtain rfl := eq_nil_of_length_eq_zero hlength
      exact ⟨rfl, rfl⟩
  | succ count ih =>
    rw [many, read_bind_ok]
    constructor
    · rintro ⟨first, _, hfirst, hmore⟩
      obtain ⟨others, _, hothers, hvalues⟩ := read_bind_ok.mp hmore
      obtain ⟨rfl, hvalid⟩ := h.mp hfirst
      obtain ⟨rfl, hlength, hall⟩ := ih.mp hothers
      obtain ⟨rfl, rfl⟩ := read_pure_ok.mp hvalues
      refine ⟨by rw [flatMap_cons, append_assoc], by rw [length_cons, hlength], ?_⟩
      exact forall_mem_cons.mpr ⟨hvalid, hall⟩
    · rintro ⟨rfl, hlength, hall⟩
      cases values with
      | nil => cases hlength
      | cons first others =>
        obtain ⟨hvalid, hothers⟩ := forall_mem_cons.mp hall
        refine ⟨first, others.flatMap write ++ rest, h.mpr ⟨?_, hvalid⟩, ?_⟩
        · rw [flatMap_cons, append_assoc]
        · exact read_bind_ok.mpr ⟨others, rest,
            ih.mpr ⟨rfl, Nat.succ.inj hlength, hothers⟩, read_pure_ok.mpr ⟨rfl, rfl⟩⟩

def whole (read : Reader E A) (trailing : ℕ → E) (bytes : Bytes) : Except E A := do
  let (value, rest) ← read bytes
  refuseIf (rest ≠ []) (trailing rest.length)
  .ok value

theorem whole_ok {trailing : ℕ → E} :
    whole read trailing bytes = .ok value ↔ read bytes = .ok (value, []) := by
  unfold whole
  rw [bind_ok]
  constructor
  · rintro ⟨⟨_, _⟩, hfirst, hvalue⟩
    obtain ⟨hrest, hvalue⟩ := refuseIf_bind_ok.mp hvalue
    cases hvalue
    rw [hfirst, not_not.mp hrest]
  · intro h
    exact ⟨(value, []), h, refuseIf_bind_ok.mpr ⟨not_not.mpr rfl, rfl⟩⟩

end Readers

end Zkpi.ByteReaders
