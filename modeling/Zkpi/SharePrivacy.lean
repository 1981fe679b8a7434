import Zkpi.FieldShares

/-!
# What all payloads but one tell

Whoever misses one node's payload learns nothing of the request. For two requests of one size the
draws of the missing node are shifted by the difference of the values; the last node's share takes
up the shift, and every other share stays. A run is given by the blocks its generator hands out, the
accepted draws and then the filling bytes.
-/

namespace Zkpi.SharePrivacy

open ByteText FieldShares FieldElement LimbArithmetic ScalarField List

abbrev Element := {element : FieldElement // element.Canonical}

/-- For every value, what is drawn for all nodes but the last. -/
abbrev Draws (count nodes : ℕ) := Fin count → Fin (nodes - 1) → Element

def recorded : Rng (List Bytes) where
  fillBytes size blocks := (⟨(blocks.headD []).takeD size 0, takeD_length ..⟩, blocks.tail)

def listed (elements : Fin size → Element) : List FieldElement :=
  ofFn fun place => (elements place).1

variable {count nodes : ℕ}

def blocksOf (draws : Draws count nodes) (fillers : List Bytes) : List Bytes :=
  (ofFn fun place => (listed (draws place)).map toBeBytes).flatten ++ fillers

/-- What the nodes other than the missing one receive. -/
def view (missing : Fin nodes) (fillers : List Bytes) (values : Fin count → Element)
    (draws : Draws count nodes) : Option (Except WireError (List Bytes)) :=
  (shareFieldElements recorded 1 (listed values) nodes (blocksOf draws fillers)).map
    fun outcome => outcome.1.map (·.eraseIdx missing)

/-! ## Residues -/

section

variable {left right : FieldElement} (hleft : left.Canonical) (hright : right.Canonical)

include hleft hright

theorem addMod_cast : ((left.addMod right).val : Scalar) = left.val + right.val := by
  rw [addMod_val hleft hright, ZMod.natCast_mod, Nat.cast_add]

theorem subMod_cast : ((left.subMod right).val : Scalar) = left.val - right.val := by
  rw [subMod_val hleft hright, ZMod.natCast_mod, Nat.cast_add, Nat.cast_sub (le_of_lt hright),
    ZMod.natCast_self, zero_sub, sub_eq_add_neg]

theorem eq_of_cast (h : (left.val : Scalar) = right.val) : left = right := by
  have hmod := (ZMod.natCast_eq_natCast_iff' _ _ _).mp h
  rw [Nat.mod_eq_of_lt hleft, Nat.mod_eq_of_lt hright] at hmod
  exact ext_val hmod

end

instance : Finite Element :=
  .of_injective (fun element => (element.1.val : Scalar)) fun left right h =>
    Subtype.ext (eq_of_cast left.2 right.2 h)

/-! ## Runs on recorded draws -/

theorem canonical_listed (elements : Fin size → Element) :
    ∀ element ∈ listed elements, element.Canonical := by
  intro element hmem
  obtain ⟨place, rfl⟩ := mem_ofFn.mp hmem
  exact (elements place).2

section

variable {element : FieldElement} (h : element.Canonical)

include h

/-- Below the order the three highest bits are clear. -/
theorem maskFirst_toBeBytes : maskFirst element.toBeBytes = element.toBeBytes := by
  have hval := beNumber_toBeBytes element
  have hlength := toBeBytes_length element
  have horder : order < 32 * 256 ^ 31 := by decide +kernel
  unfold Canonical at h
  cases hbytes : element.toBeBytes with
  | nil => rfl
  | cons byte rest =>
    rw [hbytes, length_cons] at hlength
    rw [hbytes, beNumber_cons, Nat.add_right_cancel hlength] at hval
    have hbyte : byte.toNat < 2 ^ 5 := by omega
    have hmask : (byte &&& 0x1f).toNat = byte.toNat := by
      rw [UInt8.toNat_and, UInt8.toNat_ofNat, Nat.and_two_pow_sub_one_eq_mod _ 5,
        Nat.mod_eq_of_lt hbyte]
    rw [maskFirst, UInt8.toNat_inj.mp hmask]

theorem random_recorded (blocks : List Bytes) :
    random recorded 1 (element.toBeBytes :: blocks) = some (element, blocks) := by
  have hlength := element.toBeBytes_length
  have hread : fromBeBytes element.toBeBytes = .ok element :=
    (fromBeBytes_ok hlength).mpr ⟨(beNumber_toBeBytes element).symm, beNumber_toBeBytes element ▸ h⟩
  have hblock : element.toBeBytes.takeD 32 0 = element.toBeBytes := by
    rw [takeD_eq_take 0 hlength.ge, take_of_length_le hlength.le]
  simp only [random, recorded, headD_cons, tail_cons, List.Vector.toList_mk, hblock,
    maskFirst_toBeBytes h, hread]

end

theorem drawShares_recorded {shares : List FieldElement} (h : ∀ share ∈ shares, share.Canonical)
    (sum : FieldElement) (blocks : List Bytes) :
    drawShares recorded 1 shares.length sum (shares.map toBeBytes ++ blocks) =
      some (shares, shares.foldl addMod sum, blocks) := by
  induction shares generalizing sum with
  | nil => rfl
  | cons share rest ih =>
    obtain ⟨hshare, hrest⟩ := forall_mem_cons.mp h
    simp only [length_cons, map_cons, cons_append, drawShares, random_recorded hshare,
      Option.bind_eq_bind, Option.bind_some, ih hrest, foldl_cons]

def column (value : Element) (draws : Fin size → Element) : List FieldElement :=
  listed draws ++ [value.1.subMod ((listed draws).foldl addMod .zero)]

def columns (values : Fin count → Element) (draws : Draws count nodes) :
    List (List FieldElement) :=
  ofFn fun place => column (values place) (draws place)

theorem shareColumns_recorded (values : Fin count → Element) (draws : Draws count nodes)
    (fillers : List Bytes) :
    shareColumns recorded 1 nodes (listed values) (blocksOf draws fillers) =
      some (columns values draws, fillers) := by
  induction count with
  | zero => rfl
  | succ count ih =>
    have hfirst := drawShares_recorded (canonical_listed (draws 0)) .zero
      (blocksOf (fun place => draws place.succ) fillers)
    have hrest := ih (fun place => values place.succ) fun place => draws place.succ
    simp only [listed, length_ofFn, blocksOf, columns, column, ofFn_succ, flatten_cons,
      append_assoc, shareColumns, shareColumn, Option.bind_eq_bind] at hfirst hrest ⊢
    rw [hfirst, Option.bind_some, Option.bind_some, hrest]
    rfl

theorem view_eq (hnodes : 2 ≤ nodes) (hcount : count ≤ 14) (missing : Fin nodes)
    (fillers : List Bytes) (values : Fin count → Element) (draws : Draws count nodes) :
    view missing fillers values draws = some (.ok ((payloadsOf recorded (columns values draws)
      (range nodes) fillers).1.eraseIdx missing)) := by
  have hsize : ¬ payloadBytes < (listed values).length * 32 := by
    rw [listed, length_ofFn, payloadBytes]
    omega
  rw [view, shareFieldElements, if_neg (Nat.not_lt.mpr hnodes), if_neg hsize,
    shareColumns_recorded]
  rfl

/-! ## The shift is hidden -/

theorem total_cast (shares : Fin size → Element) :
    ((listed shares).foldl addMod .zero).Canonical ∧
    (((listed shares).foldl addMod .zero).val : Scalar) =
      ∑ node, ((shares node).1.val : Scalar) := by
  obtain ⟨_, _, hcanonical, hval⟩ := drawShares_spec zero_canonical
    (drawShares_recorded (canonical_listed shares) .zero [])
  have hzero : FieldElement.zero.val = 0 := rfl
  refine ⟨hcanonical, ?_⟩
  rw [hval, ZMod.natCast_mod, hzero, Nat.zero_add, sumOf, listed, map_ofFn, sum_ofFn, Nat.cast_sum]
  rfl

section

variable (missing : Fin nodes) (values other : Fin count → Element) (draws : Draws count nodes)

def exchange : Draws count nodes := fun place node =>
  if node.val = missing then
    ⟨(draws place node).1.addMod ((other place).1.subMod (values place).1), addMod_canonical
      (draws place node).2 (subMod_canonical (other place).2 (values place).2)⟩
  else draws place node

variable (place : Fin count)

theorem exchange_cast (node : Fin (nodes - 1)) :
    ((exchange missing values other draws place node).1.val : Scalar) = (draws place node).1.val +
      if node.val = missing then ((other place).1.val : Scalar) - (values place).1.val else 0 := by
  unfold exchange
  split
  · rw [addMod_cast (draws place node).2 (subMod_canonical (other place).2 (values place).2),
      subMod_cast (other place).2 (values place).2]
  · rw [add_zero]

theorem exchange_bijective : (exchange missing values other).Bijective := by
  refine Finite.injective_iff_bijective.mp fun draws changed h => ?_
  funext place node
  have hcast := exchange_cast missing values other draws place node
  rw [h, exchange_cast, add_left_inj] at hcast
  exact Subtype.ext (eq_of_cast (draws place node).2 (changed place node).2 hcast.symm)

theorem exchange_column (hnode : node < nodes) (hne : node ≠ missing) :
    (column (other place) (exchange missing values other draws place)).getD node .zero =
      (column (values place) (draws place)).getD node .zero := by
  have hlength : ∀ shares : Fin (nodes - 1) → Element, (listed shares).length = nodes - 1 :=
    fun _ => length_ofFn
  rw [column, column]
  by_cases hlast : node < nodes - 1
  · have hsame : exchange missing values other draws place ⟨node, hlast⟩ =
        draws place ⟨node, hlast⟩ := if_neg hne
    rw [getD_eq_getElem?_getD, getD_eq_getElem?_getD, getElem?_append_left (by rwa [hlength]),
      getElem?_append_left (by rwa [hlength])]
    simp [listed, hlast, hsame]
  · obtain rfl : node = nodes - 1 := by omega
    obtain ⟨htotal, hsum⟩ := total_cast (draws place)
    obtain ⟨hchanged, hshifted⟩ := total_cast (exchange missing values other draws place)
    -- The missing node is not the last, so its shift is in the sum.
    have hshift : ∑ node : Fin (nodes - 1), (if node.val = missing then
        ((other place).1.val : Scalar) - (values place).1.val else 0) =
          (other place).1.val - (values place).1.val := by
      rw [Finset.sum_eq_single ⟨missing.val, by omega⟩]
      · exact if_pos rfl
      · exact fun node _ hnode => if_neg fun h => hnode (Fin.ext h)
      · exact fun h => absurd (Finset.mem_univ _) h
    have hlast : (other place).1.subMod _ = (values place).1.subMod _ :=
        eq_of_cast (subMod_canonical (other place).2 hchanged)
          (subMod_canonical (values place).2 htotal) <| by
      rw [subMod_cast (other place).2 hchanged, subMod_cast (values place).2 htotal, hsum, hshifted]
      simp only [exchange_cast]
      rw [Finset.sum_add_distrib, hshift]
      ring
    simp [hlength, hlast]

end

theorem payloads_agree {columns changed : Fin count → List FieldElement} {nodes : List ℕ}
    {index : ℕ} (blocks : List Bytes) (h : ∀ node, nodes[index]? = some node →
      ∀ place, (columns place).getD node .zero = (changed place).getD node .zero) :
    (payloadsOf recorded (ofFn columns) nodes blocks).1[index]? =
      (payloadsOf recorded (ofFn changed) nodes blocks).1[index]? := by
  induction nodes generalizing blocks index with
  | nil => rfl
  | cons node rest ih =>
    simp only [payloadsOf]
    rw [length_ofFn, length_ofFn]
    cases index with
    | zero => simp only [getElem?_cons_zero, flatMap_def, map_ofFn, Function.comp_def, h node rfl]
    | succ => exact ih _ h

/-- The payloads of all nodes but one tell nothing of the values. For two requests of one size the
draws can be exchanged one for one such that all nodes but the missing one receive the same, so
that whatever they receive is received for as many draws of the one request as of the other. -/
theorem missing_payload_hides_values (hnodes : 2 ≤ nodes) (hcount : count ≤ 14)
    (missing : Fin nodes) (values other : Fin count → Element) :
    ∃ exchange : Draws count nodes → Draws count nodes, exchange.Bijective ∧
      ∀ fillers : List Bytes,
      (∀ draws, ∃ payloads : List Bytes, payloads.length = nodes - 1 ∧
        view missing fillers values draws = some (.ok payloads) ∧
        view missing fillers other (exchange draws) = some (.ok payloads)) ∧
      ∀ received, Nat.card {draws // view missing fillers values draws = received} =
        Nat.card {draws // view missing fillers other draws = received} := by
  have hbijective := exchange_bijective missing values other
  refine ⟨exchange missing values other, hbijective, fun fillers => ?_⟩
  have hview : ∀ draws, view missing fillers other (exchange missing values other draws) =
      view missing fillers values draws := by
    intro draws
    rw [view_eq hnodes hcount, view_eq hnodes hcount]
    congr 2
    refine ext_getElem? fun index => ?_
    rw [getElem?_eraseIdx, getElem?_eraseIdx]
    split
    all_goals
      refine payloads_agree fillers fun node hnode place => ?_
      obtain ⟨hlt, hnode⟩ := List.getElem?_eq_some_iff.mp hnode
      rw [length_range] at hlt
      rw [getElem_range] at hnode
      exact exchange_column missing values other draws place (by omega) (by omega)
  refine ⟨fun draws => ⟨_, ?_, view_eq hnodes hcount .., ?_⟩, fun received => ?_⟩
  · rw [length_eraseIdx, payloadsOf_length, length_range, if_pos missing.2]
  · rw [hview, view_eq hnodes hcount]
  · exact Nat.card_congr ((Equiv.ofBijective _ hbijective).subtypeEquiv fun draws => by
      rw [Equiv.ofBijective_apply, hview])

def seven : Element :=
  ⟨⟨[7, 0, 0, 0], rfl⟩, show value [7, 0, 0, 0] < order by decide +kernel⟩

theorem missing_payload_hides_zero :
    ∃ exchange : Draws 1 2 → Draws 1 2, exchange.Bijective ∧ ∀ draws,
      view 0 [] (fun _ => seven) (exchange draws) =
        view 0 [] (fun _ => ⟨.zero, zero_canonical⟩) draws := by
  obtain ⟨exchange, hbijective, h⟩ :=
    missing_payload_hides_values (by decide) (by decide) (0 : Fin 2) (fun _ : Fin 1 => _) _
  refine ⟨exchange, hbijective, fun draws => ?_⟩
  obtain ⟨_, _, hzero, hseven⟩ := (h []).1 draws
  rw [hzero, hseven]

end Zkpi.SharePrivacy
