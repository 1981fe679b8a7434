import Zkpi.ByteText
import Zkpi.FallibleChecks
import Zkpi.LimbArithmetic
import Zkpi.ScalarField

/-!
# Additive shares in fixed payloads

A request is a list of field elements, each split into one random share for all nodes but the last
and the difference for the last. Elements are four 64-bit words below the group order; sums and
differences are computed on the words with one conditional correction. A node receives the bytes of
its shares, filled up with random bytes to a fixed size, and the payloads of all nodes, in any
order, add up to the request.

Random elements are drawn until one is below the order. The generator is arbitrary; what is needed
of it is that a draw ends.
-/

namespace Zkpi.FieldShares

open ByteText FallibleChecks LimbArithmetic ScalarField List

/-- Four words, least significant first. -/
structure FieldElement where
  limbs : List UInt64
  four : limbs.length = 4
deriving DecidableEq

/-- What is wrong with a request or a payload. -/
inductive WireError where
  | nodeCount
  | requestSize
  | fieldElement
deriving DecidableEq

def payloadBytes : ℕ := 448

namespace FieldElement

def val (element : FieldElement) : ℕ := value element.limbs

theorem ext_val {a b : FieldElement} (h : a.val = b.val) : a = b := by
  have hlimbs := value_inj (a.four.trans b.four.symm) h
  cases a
  cases b
  cases hlimbs
  rfl

def zero : FieldElement := ⟨[0, 0, 0, 0], rfl⟩

/-- The group order. -/
def field : FieldElement :=
  ⟨[0x5812631a5cf5d3ed, 0x14def9dea2f79cd6, 0x0000000000000000, 0x1000000000000000], rfl⟩

theorem field_val : field.val = order := by decide +kernel

def cmp (a b : FieldElement) : Ordering := lexCompare a.limbs.reverse b.limbs.reverse

theorem cmp_eq (a b : FieldElement) : a.cmp b = compare a.val b.val := by
  have hlength : a.limbs.reverse.length = b.limbs.reverse.length := by
    rw [length_reverse, length_reverse, a.four, b.four]
  rw [cmp, lexCompare_eq hlength, reverse_reverse, reverse_reverse]
  rfl

def Canonical (element : FieldElement) : Prop := element.val < order

variable {element : FieldElement}

theorem cmp_field_lt : element.cmp field = .lt ↔ element.Canonical := by
  rw [cmp_eq, field_val, Nat.compare_eq_lt]
  rfl

def ofBytes (bytes : Bytes) : FieldElement where
  limbs := [0, 1, 2, 3].map fun index =>
    UInt64.ofNat (beNumber ((bytes.drop (24 - index * 8)).take 8))
  four := rfl

def fromBeBytes (bytes : Bytes) : Except WireError FieldElement :=
  if (ofBytes bytes).cmp field = .lt then .ok (ofBytes bytes) else .error .fieldElement

def toBeBytes (element : FieldElement) : Bytes :=
  element.limbs.reverse.flatMap fun limb => beBytes 8 limb.toNat

variable (left right : FieldElement)

def addRaw : FieldElement × Bool :=
  (⟨(addLimbs false left.limbs right.limbs).1, by
    rw [(addLimbs_value false (left.four.trans right.four.symm)).1, left.four]⟩,
    (addLimbs false left.limbs right.limbs).2)

/-- The words of a difference, and whether it went below zero. -/
def subRaw : FieldElement × Bool :=
  (⟨(subLimbs false left.limbs right.limbs).1, by
    rw [(subLimbs_value false (left.four.trans right.four.symm)).1, left.four]⟩,
    (subLimbs false left.limbs right.limbs).2)

def addMod : FieldElement :=
  let sum := (addRaw left right).1
  if sum.cmp field = .lt then sum else (subRaw sum field).1

def subMod : FieldElement :=
  if left.cmp right = .lt then (subRaw field (subRaw right left).1).1 else (subRaw left right).1

variable {left right : FieldElement}

theorem subRaw_val (h : right.val ≤ left.val) : (subRaw left right).1.val = left.val - right.val :=
  subLimbs_of_le (left.four.trans right.four.symm) h

section

variable (hleft : left.Canonical) (hright : right.Canonical)

include hleft hright

theorem addRaw_val :
    (addRaw left right).2 = false ∧ (addRaw left right).1.val = left.val + right.val := by
  have hsum := (addLimbs_value false (left.four.trans right.four.symm)).2
  rw [left.four, Bool.toNat_false, Nat.add_zero] at hsum
  have horder : 2 * order < 2 ^ 256 := by decide +kernel
  unfold Canonical val at hleft hright
  simp only [addRaw, val]
  cases hcarry : (addLimbs false left.limbs right.limbs).2 with
  | false =>
    rw [hcarry, Bool.toNat_false, Nat.mul_zero, Nat.add_zero] at hsum
    exact ⟨rfl, hsum⟩
  | true =>
    rw [hcarry, Bool.toNat_true, Nat.mul_one] at hsum
    omega

theorem addMod_val : (left.addMod right).val = (left.val + right.val) % order := by
  obtain ⟨_, hsum⟩ := addRaw_val hleft hright
  unfold Canonical at hleft hright
  simp only [addMod]
  split
  · rename_i hlt
    have hsmall : (addRaw left right).1.val < order := cmp_field_lt.mp hlt
    rw [hsum, Nat.mod_eq_of_lt (hsum ▸ hsmall)]
  · rename_i hge
    have hlarge : order ≤ (addRaw left right).1.val :=
      Nat.not_lt.mp fun h => hge (cmp_field_lt.mpr h)
    rw [subRaw_val (field_val ▸ hlarge), field_val, hsum,
      Nat.mod_eq_sub_mod (hsum ▸ hlarge), Nat.mod_eq_of_lt (by omega)]

theorem subMod_val : (left.subMod right).val = (left.val + (order - right.val)) % order := by
  unfold Canonical at hleft hright
  unfold subMod
  split
  · rename_i hlt
    rw [cmp_eq, Nat.compare_eq_lt] at hlt
    have hdifference := subRaw_val hlt.le
    have hle : (subRaw right left).1.val ≤ field.val := by
      rw [hdifference, field_val]
      omega
    rw [subRaw_val hle, hdifference, field_val, Nat.mod_eq_of_lt (by omega)]
    omega
  · rename_i hge
    rw [cmp_eq, Nat.compare_eq_lt, Nat.not_lt] at hge
    rw [subRaw_val hge, Nat.mod_eq_sub_mod (by omega), Nat.mod_eq_of_lt (by omega)]
    omega

theorem addMod_canonical : (left.addMod right).Canonical := by
  rw [Canonical, addMod_val hleft hright]
  exact Nat.mod_lt _ (by decide)

theorem subMod_canonical : (left.subMod right).Canonical := by
  rw [Canonical, subMod_val hleft hright]
  exact Nat.mod_lt _ (by decide)

end

theorem zero_canonical : zero.Canonical := by
  rw [Canonical]
  decide +kernel

/-! ## Bytes -/

theorem ofNat_chunk (h : bytes.length = 8) :
    (UInt64.ofNat (beNumber bytes)).toNat = beNumber bytes := by
  have hlt := beNumber_lt bytes
  rw [h] at hlt
  exact UInt64.toNat_ofNat_of_lt' (hlt.trans_le (by norm_num))

theorem ofBytes_val (h : bytes.length = 32) : (ofBytes bytes).val = beNumber bytes := by
  have hlength : ∀ start, start ≤ 24 → ((bytes.drop start).take 8).length = 8 := by
    intro start hstart
    rw [length_take, length_drop]
    omega
  have hsplit : ∀ start, start ≤ 24 → beNumber (bytes.drop start) =
      256 ^ (24 - start) * beNumber ((bytes.drop start).take 8) +
        beNumber (bytes.drop (start + 8)) := by
    intro start hstart
    have happend := beNumber_append ((bytes.drop start).take 8) ((bytes.drop start).drop 8)
    rw [take_append_drop, drop_drop, length_drop] at happend
    have hwidth : 32 - (start + 8) = 24 - start := by omega
    rw [happend, h, hwidth]
  have hend : beNumber (bytes.drop 32) = 0 := by
    rw [drop_eq_nil_of_le h.le]
    rfl
  have h0 := hsplit 0 (by norm_num)
  have h1 := hsplit 8 (by norm_num)
  have h2 := hsplit 16 (by norm_num)
  have h3 := hsplit 24 (by norm_num)
  rw [drop_zero] at h0
  simp only [val, ofBytes, map_cons, map_nil, value_cons, value_nil, Nat.zero_mul,
    Nat.one_mul, Nat.reduceMul, Nat.reduceSub, ofNat_chunk (hlength 24 (by norm_num)),
    ofNat_chunk (hlength 16 (by norm_num)), ofNat_chunk (hlength 8 (by norm_num)),
    ofNat_chunk (hlength 0 (by norm_num))]
  rw [h0, h1, h2, h3, hend]
  norm_num
  ring

theorem fromBeBytes_ok (h : bytes.length = 32) :
    fromBeBytes bytes = .ok element ↔ element.val = beNumber bytes ∧ beNumber bytes < order := by
  have hval := ofBytes_val h
  unfold fromBeBytes
  split
  · rename_i hlt
    have hcanonical : (ofBytes bytes).val < order := cmp_field_lt.mp hlt
    rw [Except.ok.injEq]
    constructor
    · rintro rfl
      exact ⟨hval, hval ▸ hcanonical⟩
    · rintro ⟨helement, _⟩
      exact ext_val (hval.trans helement.symm)
  · rename_i hge
    have hlarge : ¬ (ofBytes bytes).val < order := fun hlt => hge (cmp_field_lt.mpr hlt)
    simp only [reduceCtorEq, false_iff, not_and]
    intro _ hlt
    exact hlarge (hval ▸ hlt)

theorem toBeBytes_length (element : FieldElement) : element.toBeBytes.length = 32 := by
  simp [toBeBytes, length_flatMap, element.four]

theorem beNumber_limbs (limbs : List UInt64) :
    beNumber (limbs.reverse.flatMap fun limb => beBytes 8 limb.toNat) = value limbs := by
  induction limbs with
  | nil => rfl
  | cons limb rest ih =>
    rw [reverse_cons, flatMap_append, beNumber_append, ih, value_cons]
    simp only [flatMap_cons, flatMap_nil, append_nil, beBytes_length]
    rw [beNumber_beBytes (by simpa using limb.toNat_lt)]
    norm_num
    ring

theorem beNumber_toBeBytes (element : FieldElement) : beNumber element.toBeBytes = element.val :=
  beNumber_limbs element.limbs

end FieldElement

open FieldElement

/-! ## Randomness -/

/-- A generator with a state. -/
structure Rng (R : Type) where
  fillBytes : (size : ℕ) → R → List.Vector UInt8 size × R

section Share

variable {R : Type} (rng : Rng R)

def maskFirst : Bytes → Bytes
  | [] => []
  | byte :: rest => (byte &&& 0x1f) :: rest

def random : ℕ → R → Option (FieldElement × R)
  | 0, _ => none
  | fuel + 1, state =>
    let (bytes, next) := rng.fillBytes 32 state
    match fromBeBytes (maskFirst bytes.toList) with
    | .ok element => some (element, next)
    | .error _ => random fuel next

def drawShares (fuel : ℕ) : ℕ → FieldElement → R → Option (List FieldElement × FieldElement × R)
  | 0, sum, state => some ([], sum, state)
  | count + 1, sum, state => do
    let (share, state) ← random rng fuel state
    let (rest, total, state) ← drawShares fuel count (sum.addMod share) state
    some (share :: rest, total, state)

def shareColumn (fuel : ℕ) (nodes : ℕ) (element : FieldElement) (state : R) :
    Option (List FieldElement × R) := do
  let (shares, sum, state) ← drawShares rng fuel (nodes - 1) .zero state
  some (shares ++ [element.subMod sum], state)

def shareColumns (fuel : ℕ) (nodes : ℕ) :
    List FieldElement → R → Option (List (List FieldElement) × R)
  | [], state => some ([], state)
  | element :: rest, state => do
    let (column, state) ← shareColumn rng fuel nodes element state
    let (columns, state) ← shareColumns fuel nodes rest state
    some (column :: columns, state)

def payloadsOf (columns : List (List FieldElement)) : List ℕ → R → List Bytes × R
  | [], state => ([], state)
  | node :: rest, state =>
    let (filler, state) := rng.fillBytes (payloadBytes - columns.length * 32) state
    let (payloads, state) := payloadsOf columns rest state
    ((columns.flatMap (fun column => (column.getD node .zero).toBeBytes) ++ filler.toList) ::
      payloads, state)

def shareFieldElements (fuel : ℕ) (values : List FieldElement) (nodes : ℕ) (state : R) :
    Option (Except WireError (List Bytes) × R) :=
  if nodes < 2 then some (.error .nodeCount, state)
  else if payloadBytes < values.length * 32 then some (.error .requestSize, state)
  else do
    let (columns, state) ← shareColumns rng fuel nodes values state
    let (payloads, state) := payloadsOf rng columns (range nodes) state
    some (.ok payloads, state)

end Share

def chunk (index : ℕ) (payload : Bytes) : Bytes := (payload.drop (index * 32)).take 32

def reconstruct (payloads : List Bytes) (values : ℕ) : Except WireError (List FieldElement) := do
  refuseIf (payloadBytes < values * 32) .requestSize
  (range values).mapM fun index =>
    payloads.foldlM (fun total payload => do
      let share ← fromBeBytes (chunk index payload)
      .ok (total.addMod share)) FieldElement.zero

/-! ## Sums of shares -/

def sumOf (elements : List FieldElement) : ℕ := (elements.map val).sum

section Draws

variable {R : Type} {rng : Rng R}

variable {fuel : ℕ} {state next : R} {element : FieldElement}

theorem random_canonical (h : random rng fuel state = some (element, next)) :
    element.Canonical := by
  induction fuel generalizing state with
  | zero => cases h
  | succ fuel ih =>
    simp only [random] at h
    split at h
    · rename_i decoded hdecoded
      cases h
      have hlength : (maskFirst (rng.fillBytes 32 state).1.toList).length = 32 := by
        have hbytes := (rng.fillBytes 32 state).1.toList_length
        generalize (rng.fillBytes 32 state).1.toList = bytes at hbytes
        cases bytes with
        | nil => cases hbytes
        | cons => exact hbytes
      obtain ⟨hval, hlt⟩ := (fromBeBytes_ok hlength).mp hdecoded
      rw [Canonical, hval]
      exact hlt
    · exact ih h

theorem drawShares_spec {count : ℕ} {sum total : FieldElement} {shares : List FieldElement}
    (hsum : sum.Canonical) (h : drawShares rng fuel count sum state = some (shares, total, next)) :
    shares.length = count ∧ (∀ share ∈ shares, share.Canonical) ∧ total.Canonical ∧
      total.val = (sum.val + sumOf shares) % order := by
  induction count generalizing sum state shares with
  | zero =>
    cases h
    refine ⟨rfl, by simp, hsum, ?_⟩
    rw [sumOf, map_nil, sum_nil, Nat.add_zero, Nat.mod_eq_of_lt hsum]
  | succ count ih =>
    simp only [drawShares, Option.bind_eq_bind, Option.bind_eq_some_iff] at h
    obtain ⟨⟨_, _⟩, hdraw, ⟨_, _, _⟩, hrest, hresult⟩ := h
    cases hresult
    have hshare := random_canonical hdraw
    obtain ⟨hlength, hcanonical, htotal, hval⟩ := ih (addMod_canonical hsum hshare) hrest
    refine ⟨by rw [length_cons, hlength], forall_mem_cons.mpr ⟨hshare, hcanonical⟩,
      htotal, ?_⟩
    rw [hval, addMod_val hsum hshare, Nat.mod_add_mod, sumOf, sumOf, map_cons, sum_cons,
      Nat.add_assoc]

structure Column (nodes : ℕ) (element : FieldElement) (column : List FieldElement) : Prop where
  length : column.length = nodes
  canonical : ∀ share ∈ column, share.Canonical
  sum : sumOf column % order = element.val

variable {nodes : ℕ}

theorem shareColumn_spec {column : List FieldElement} (hnodes : 2 ≤ nodes)
    (helement : element.Canonical)
    (h : shareColumn rng fuel nodes element state = some (column, next)) :
    Column nodes element column := by
  simp only [shareColumn, Option.bind_eq_bind, Option.bind_eq_some_iff] at h
  obtain ⟨⟨shares, total, _⟩, hdraws, hresult⟩ := h
  cases hresult
  obtain ⟨hlength, hcanonical, htotal, hval⟩ := drawShares_spec zero_canonical hdraws
  have hlast := subMod_canonical helement htotal
  have hzero : FieldElement.zero.val = 0 := rfl
  rw [hzero, Nat.zero_add] at hval
  refine ⟨?_, ?_, ?_⟩
  · rw [length_append, hlength, length_singleton]
    omega
  · intro share hmem
    rcases mem_append.mp hmem with hmem | hmem
    · exact hcanonical share hmem
    · rw [mem_singleton.mp hmem]
      exact hlast
  · have hsums : sumOf (shares ++ [element.subMod total]) =
        sumOf shares + (element.subMod total).val := by
      simp [sumOf]
    -- The random shares telescope against the last one.
    have htelescope : total.val + (element.val + (order - total.val)) = element.val + order := by
      have hlt : total.val < order := htotal
      omega
    rw [hsums, subMod_val helement htotal, Nat.add_mod_mod, ← Nat.mod_add_mod, ← hval, htelescope,
      Nat.add_mod_right, Nat.mod_eq_of_lt helement]

theorem shareColumns_spec (hnodes : 2 ≤ nodes) (hvalues : ∀ element ∈ values, element.Canonical)
    (h : shareColumns rng fuel nodes values state = some (columns, next)) :
    List.Forall₂ (Column nodes) values columns := by
  induction values generalizing state columns with
  | nil =>
    cases h
    exact .nil
  | cons element rest ih =>
    simp only [shareColumns, Option.bind_eq_bind, Option.bind_eq_some_iff] at h
    obtain ⟨⟨_, _⟩, hcolumn, ⟨_, _⟩, hcolumns, hresult⟩ := h
    cases hresult
    obtain ⟨helement, hrest⟩ := forall_mem_cons.mp hvalues
    exact .cons (shareColumn_spec hnodes helement hcolumn) (ih hrest hcolumns)

/-! ## Draws that end -/

def Live (rng : Rng R) : Prop := ∀ state, ∃ fuel, (random rng fuel state).isSome = true

theorem random_mono (hle : fuel ≤ more)
    (h : random rng fuel state = some result) : random rng more state = some result := by
  induction fuel generalizing more state with
  | zero => cases h
  | succ fuel ih =>
    obtain ⟨more, rfl⟩ : ∃ k, more = k + 1 := ⟨more - 1, by omega⟩
    simp only [random] at h ⊢
    split at h
    · exact h
    · exact ih (by omega) h

theorem random_settles (hlive : Live rng) (state : R) :
    ∃ least result, ∀ fuel ≥ least, random rng fuel state = some result := by
  obtain ⟨least, hsome⟩ := hlive state
  obtain ⟨result, hresult⟩ := Option.isSome_iff_exists.mp hsome
  exact ⟨least, result, fun fuel hfuel => random_mono hfuel hresult⟩

theorem drawShares_settles (hlive : Live rng) (count : ℕ) (sum : FieldElement) (state : R) :
    ∃ least result, ∀ fuel ≥ least, drawShares rng fuel count sum state = some result := by
  induction count generalizing sum state with
  | zero => exact ⟨0, _, fun _ _ => rfl⟩
  | succ count ih =>
    obtain ⟨first, ⟨share, next⟩, hfirst⟩ := random_settles hlive state
    obtain ⟨second, ⟨rest, total, last⟩, hsecond⟩ := ih (sum.addMod share) next
    refine ⟨max first second, (share :: rest, total, last), fun fuel hfuel => ?_⟩
    rw [drawShares, hfirst fuel (le_of_max_le_left hfuel)]
    simp [hsecond fuel (le_of_max_le_right hfuel)]

theorem shareColumns_settles (hlive : Live rng) (nodes : ℕ) (values : List FieldElement)
    (state : R) :
    ∃ least result, ∀ fuel ≥ least, shareColumns rng fuel nodes values state = some result := by
  induction values generalizing state with
  | nil => exact ⟨0, _, fun _ _ => rfl⟩
  | cons element rest ih =>
    obtain ⟨first, ⟨shares, sum, next⟩, hfirst⟩ :=
      drawShares_settles hlive (nodes - 1) FieldElement.zero state
    obtain ⟨second, ⟨columns, last⟩, hsecond⟩ := ih next
    refine ⟨max first second, ((shares ++ [element.subMod sum]) :: columns, last),
      fun fuel hfuel => ?_⟩
    simp only [shareColumns, shareColumn, hfirst fuel (le_of_max_le_left hfuel),
      Option.bind_eq_bind, Option.bind_some, hsecond fuel (le_of_max_le_right hfuel)]

end Draws

/-! ## Payloads -/

variable {element : FieldElement}

theorem chunk_zero (rest : Bytes) : chunk 0 (element.toBeBytes ++ rest) = element.toBeBytes := by
  rw [chunk, Nat.zero_mul, drop_zero, take_left' element.toBeBytes_length]

theorem chunk_succ :
    chunk (index + 1) (element.toBeBytes ++ rest) = chunk index rest := by
  have hskip : (index + 1) * 32 = element.toBeBytes.length + index * 32 := by
    rw [element.toBeBytes_length]
    ring
  rw [chunk, chunk, hskip, drop_length_add_append]

variable {columns : List (List FieldElement)} {index : ℕ} {column : List FieldElement}

theorem chunk_payload (h : columns[index]? = some column) (node : ℕ) (filler : Bytes) :
    chunk index (columns.flatMap (fun column => (column.getD node .zero).toBeBytes) ++ filler) =
      (column.getD node .zero).toBeBytes := by
  induction columns generalizing index with
  | nil => cases h
  | cons first rest ih =>
    rw [flatMap_cons, append_assoc]
    cases index with
    | zero =>
      cases h
      exact chunk_zero _
    | succ => rw [chunk_succ, ih h]

variable {R : Type}

/-- Whatever is read of the payloads at one place is read of the column's shares. -/
theorem payloadsOf_chunks {A : Type} (rng : Rng R) (h : columns[index]? = some column)
    (read : Bytes → A) (nodes : List ℕ) (state : R) :
    ((payloadsOf rng columns nodes state).1.map fun payload => read (chunk index payload)) =
      nodes.map fun node => read (column.getD node .zero).toBeBytes := by
  induction nodes generalizing state with
  | nil => rfl
  | cons node rest ih => simp only [payloadsOf, map_cons, ih, chunk_payload h]

theorem payloadsOf_length (rng : Rng R) (columns : List (List FieldElement)) (nodes : List ℕ)
    (state : R) :
    (payloadsOf rng columns nodes state).1.length = nodes.length := by
  induction nodes generalizing state with
  | nil => rfl
  | cons node rest ih => simp only [payloadsOf, length_cons, ih]

theorem map_getD_range (column : List FieldElement) :
    (range column.length).map (fun node => column.getD node .zero) = column := by
  apply ext_getElem
  · simp
  · intro i h _
    rw [length_map, length_range] at h
    simp [h]

theorem payloads_chunks (rng : Rng R) (h : columns[index]? = some column) (state : R) :
    (payloadsOf rng columns (range column.length) state).1.map (chunk index) =
      column.map toBeBytes := by
  have hchunks := payloadsOf_chunks rng h id (range column.length) state
  simp only [id_eq] at hchunks
  rw [hchunks]
  conv_rhs => rw [← map_getD_range column, map_map]
  rfl

def numberAt (index : ℕ) (payload : Bytes) : ℕ := beNumber (chunk index payload)

variable {payloads : List Bytes}

theorem fold_chunks
    (hchunks : ∀ payload ∈ payloads, ∃ share : FieldElement, share.Canonical ∧ chunk index payload =
      share.toBeBytes) {total : FieldElement} (htotal : total.Canonical) :
    ∃ result, payloads.foldlM (fun total payload => do
        let share ← fromBeBytes (chunk index payload)
        .ok (total.addMod share)) total = .ok result ∧ result.Canonical ∧
      result.val = (total.val + (payloads.map (numberAt index)).sum) % order := by
  induction payloads generalizing total with
  | nil =>
    refine ⟨total, rfl, htotal, ?_⟩
    rw [map_nil, sum_nil, Nat.add_zero, Nat.mod_eq_of_lt htotal]
  | cons payload rest ih =>
    obtain ⟨⟨share, hshare, hchunk⟩, hrest⟩ := forall_mem_cons.mp hchunks
    obtain ⟨result, hresult, hcanonical, hval⟩ := ih hrest (addMod_canonical htotal hshare)
    have hnumber : beNumber (chunk index payload) = share.val := by
      rw [hchunk, beNumber_toBeBytes]
    refine ⟨result, ?_, hcanonical, ?_⟩
    · have hdecoded : fromBeBytes (chunk index payload) = .ok share := by
        refine (fromBeBytes_ok (by rw [hchunk, share.toBeBytes_length])).mpr ?_
        rw [hnumber]
        exact ⟨rfl, hshare⟩
      rw [foldlM_cons, hdecoded]
      exact hresult
    · rw [hval, addMod_val htotal hshare, Nat.mod_add_mod, map_cons, sum_cons, numberAt,
        hnumber, Nat.add_assoc]

/-- Payloads that hold the shares of columns, in whatever order, add up to what was shared. -/
theorem reconstruct_columns (hcolumns : List.Forall₂ (Column nodes) values columns)
    (hsize : values.length * 32 ≤ payloadBytes) {ordered : List Bytes}
    (hperm : ordered.Perm payloads)
    (hchunks : ∀ (index : ℕ) (column : List FieldElement), columns[index]? = some column →
      payloads.map (chunk index) = column.map toBeBytes) :
    reconstruct ordered values.length = .ok values := by
  refine refuseIf_bind_ok.mpr ⟨Nat.not_lt.mpr hsize, mapM_ok.mpr ?_⟩
  apply ext_getElem
  · simp
  · intro index hindex _
    rw [length_map, length_range] at hindex
    have hindex' : index < columns.length := hcolumns.length_eq ▸ hindex
    have hcolumn : Column nodes values[index] columns[index] := hcolumns.get hindex hindex'
    have hmap := hchunks index columns[index] (getElem?_eq_getElem hindex')
    have hfound : ∀ payload ∈ ordered, ∃ share : FieldElement, share.Canonical ∧
        chunk index payload = share.toBeBytes := by
      intro payload hpayload
      have hmem : chunk index payload ∈ columns[index].map toBeBytes := by
        rw [← hmap]
        exact mem_map_of_mem (hperm.mem_iff.mp hpayload)
      obtain ⟨share, hshare, hbytes⟩ := mem_map.mp hmem
      exact ⟨share, hcolumn.canonical share hshare, hbytes.symm⟩
    have hsum : (ordered.map (numberAt index)).sum = sumOf columns[index] := by
      rw [(hperm.map _).sum_eq]
      have hnumbers := congrArg (map beNumber) hmap
      rw [map_map, map_map] at hnumbers
      have hvals : (columns[index].map (beNumber ∘ toBeBytes)) = columns[index].map val :=
        map_congr_left fun share _ => beNumber_toBeBytes share
      rw [sumOf, ← hvals, ← hnumbers]
      rfl
    obtain ⟨_, hresult, _, hval⟩ := fold_chunks hfound zero_canonical
    have hzero : FieldElement.zero.val = 0 := rfl
    rw [hsum, hzero, Nat.zero_add, hcolumn.sum] at hval
    rw [getElem_map, getElem_map, getElem_range, hresult, ext_val hval]

/-- Sharing and reconstruction. With a generator whose draws end, sharing at most fourteen canonical
elements among two or more nodes ends; each node's payload holds canonical shares only, and the
payloads in any order reconstruct to exactly the elements. Sums and differences on four words are
exact modulo the order for canonical operands, and no sum leaves the four words. -/
theorem shares_reconstruct :
    (∀ left right : FieldElement, left.Canonical → right.Canonical →
      (addRaw left right).2 = false ∧ (left.addMod right).val = (left.val + right.val) % order ∧
      ((left.subMod right).val : ℤ) = ((left.val : ℤ) - right.val) % order) ∧
    ∀ {R : Type} (rng : Rng R), Live rng → ∀ (values : List FieldElement) (nodes : ℕ) (state : R),
      (∀ element ∈ values, element.Canonical) → values.length ≤ 14 → 2 ≤ nodes →
      ∃ least payloads next, (∀ fuel ≥ least,
          shareFieldElements rng fuel values nodes state = some (.ok payloads, next)) ∧
        payloads.length = nodes ∧
        (∀ payload ∈ payloads, ∀ index < values.length, ∃ share : FieldElement,
          share.Canonical ∧ chunk index payload = share.toBeBytes) ∧
        ∀ ordered : List Bytes, ordered.Perm payloads →
          reconstruct ordered values.length = .ok values := by
  refine ⟨?_, ?_⟩
  · intro left right hleft hright
    refine ⟨(addRaw_val hleft hright).1, addMod_val hleft hright, ?_⟩
    have hlt : right.val < order := hright
    have hsub : ((left.val + (order - right.val) : ℕ) : ℤ) =
        (left.val : ℤ) - right.val + order := by
      push_cast [Nat.cast_sub hlt.le]
      ring
    rw [subMod_val hleft hright, Int.natCast_mod, hsub, Int.add_emod_right]
  · intro R rng hlive values nodes state hvalues hcount hnodes
    obtain ⟨least, ⟨columns, middle⟩, hsettles⟩ := shareColumns_settles hlive nodes values state
    have hcolumns := shareColumns_spec hnodes hvalues (hsettles least le_rfl)
    have hsize : values.length * 32 ≤ payloadBytes := by
      rw [payloadBytes]
      omega
    have hchunks : ∀ (index : ℕ) (column : List FieldElement), columns[index]? = some column →
        (payloadsOf rng columns (range nodes) middle).1.map (chunk index) =
          column.map toBeBytes := by
      intro index column hcolumn
      obtain ⟨hindex, hget⟩ := List.getElem?_eq_some_iff.mp hcolumn
      have hcol := hcolumns.get (hcolumns.length_eq ▸ hindex) hindex
      have hlength : column.length = nodes := hget ▸ hcol.length
      rw [← hlength]
      exact payloads_chunks rng hcolumn middle
    refine ⟨least, (payloadsOf rng columns (range nodes) middle).1,
      (payloadsOf rng columns (range nodes) middle).2, ?_, ?_, ?_, ?_⟩
    · intro fuel hfuel
      rw [shareFieldElements, if_neg (Nat.not_lt.mpr hnodes), if_neg (Nat.not_lt.mpr hsize),
        hsettles fuel hfuel]
      rfl
    · exact payloadsOf_length rng columns (range nodes) middle |>.trans length_range
    · intro payload hpayload index hindex
      have hindex' : index < columns.length := hcolumns.length_eq ▸ hindex
      have hmem : chunk index payload ∈ columns[index].map toBeBytes := by
        rw [← hchunks index _ (getElem?_eq_getElem hindex')]
        exact mem_map_of_mem hpayload
      obtain ⟨share, hshare, hbytes⟩ := mem_map.mp hmem
      exact ⟨share, (hcolumns.get hindex hindex').canonical share hshare, hbytes.symm⟩
    · intro _ hperm
      exact reconstruct_columns hcolumns hsize hperm hchunks

def zeroRng : Rng Unit := ⟨fun size _ => (List.Vector.replicate size 0, ())⟩

theorem zeroRng_live : Live zeroRng := by
  intro state
  cases state
  exact ⟨1, by decide +kernel⟩

def five : FieldElement := ⟨[5, 0, 0, 0], rfl⟩

/-- Five shared among three nodes by the zero generator. -/
theorem shares_reconstruct_five :
    five.Canonical ∧ ∃ least payloads next, (∀ fuel ≥ least,
        shareFieldElements zeroRng fuel [five] 3 () = some (.ok payloads, next)) ∧
      payloads.length = 3 ∧
      (∀ payload ∈ payloads, ∀ index < 1, ∃ share : FieldElement, share.Canonical ∧
        chunk index payload = share.toBeBytes) ∧
      ∀ ordered : List Bytes, ordered.Perm payloads → reconstruct ordered 1 = .ok [five] := by
  have hfive : five.Canonical := by
    rw [Canonical]
    decide +kernel
  exact ⟨hfive, shares_reconstruct.2 zeroRng zeroRng_live [five] 3 ()
    (fun element hmem => mem_singleton.mp hmem ▸ hfive) (by decide) (by decide)⟩

end Zkpi.FieldShares
