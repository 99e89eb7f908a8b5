/-
Benchhand.Contracts.FiniteTreeTheorems — isJsonValue decides finite trees.

`Returns` are the recursive calls as the source makes them, with no bound on
how deep they go. A call goes into an object only when it is not inside of it
already, so the objects it is not inside of become fewer, and every call
returns (`returns_isJsonValue`). What it returns is read off the graph: no
cycle, no leaf but those of JSON and no foreign prototype can be reached
(`isJsonValue_true_iff`). An object shared by two others is no cycle.
-/
import Benchhand.Contracts.JsonValueTheorems
import Mathlib.Logic.Relation

namespace Benchhand.Contracts

open Benchhand.Text Benchhand.Js Relation

/-! ## Calls -/

/-- A call of `isJsonValue`, or of `every` on the values that are left. -/
inductive Call where
  | value (v : Value)
  | every (vs : List Value)

/-- What is returned for a value that is no object. -/
def primitive : Value → Option Bool
  | .null | .string _ | .boolean _ => some true
  | .number n => some n.isFinite
  | .undefined | .bigint _ | .symbol | .function => some false
  | .object _ => none

/-- The call returns `valid` and leaves this set of objects it is inside of. -/
inductive Returns (h : Heap) : Call → Finset Ref → Bool → Finset Ref → Prop where
  | primitive {v : Value} {seen : Finset Ref} {valid : Bool} (hv : primitive v = some valid) :
      Returns h (.value v) seen valid seen
  | inside {r : Ref} {seen : Finset Ref} (hr : r ∈ seen) :
      Returns h (.value (.object r)) seen false seen
  | array {r : Ref} {items : List (Option Value)} {seen seen' : Finset Ref} {valid : Bool}
      (hr : r ∉ seen) (hlook : h.objs[r]? = some (.array items))
      (hevery : Returns h (.every (items.filterMap id)) (insert r seen) valid seen') :
      Returns h (.value (.object r)) seen valid (seen'.erase r)
  | foreign {r : Ref} {props : Properties} {seen : Finset Ref} (hr : r ∉ seen)
      (hlook : h.objs[r]? = some (.plain .other props)) :
      Returns h (.value (.object r)) seen false ((insert r seen).erase r)
  | plain {r : Ref} {proto : Prototype} {props : Properties} {seen seen' : Finset Ref}
      {valid : Bool} (hr : r ∉ seen) (hlook : h.objs[r]? = some (.plain proto props))
      (hproto : proto ≠ .other)
      (hevery : Returns h (.every (props.entries.map Prod.snd)) (insert r seen) valid seen') :
      Returns h (.value (.object r)) seen valid (seen'.erase r)
  | done {seen : Finset Ref} : Returns h (.every []) seen true seen
  | stop {v : Value} {vs : List Value} {seen seen' : Finset Ref}
      (hv : Returns h (.value v) seen false seen') : Returns h (.every (v :: vs)) seen false seen'
  | next {v : Value} {vs : List Value} {seen seen' seen'' : Finset Ref} {valid : Bool}
      (hv : Returns h (.value v) seen true seen') (hvs : Returns h (.every vs) seen' valid seen'') :
      Returns h (.every (v :: vs)) seen valid seen''

section
variable {h : Heap}

/-- A call returns one thing. -/
theorem Returns.unique {call : Call} {seen seen' : Finset Ref} {valid : Bool}
    (hleft : Returns h call seen valid seen') : ∀ {valid' : Bool} {seen'' : Finset Ref},
      Returns h call seen valid' seen'' → valid' = valid ∧ seen'' = seen' := by
  induction hleft with
  | primitive hv =>
      intro valid' seen'' hright
      cases hright with
      | primitive hv' => exact ⟨Option.some.inj (hv'.symm.trans hv), rfl⟩
      | inside | array | foreign | plain => cases hv
  | inside hr =>
      intro valid' seen'' hright
      cases hright with
      | primitive hv => cases hv
      | inside => exact ⟨rfl, rfl⟩
      | array hr' | foreign hr' | plain hr' => exact absurd hr hr'
  | array hr hlook _ ih =>
      intro valid' seen'' hright
      cases hright with
      | primitive hv => cases hv
      | inside hr' => exact absurd hr' hr
      | array _ hlook' hevery =>
          obtain rfl := Obj.array.inj (Option.some.inj (hlook'.symm.trans hlook))
          obtain ⟨rfl, rfl⟩ := ih hevery
          exact ⟨rfl, rfl⟩
      | foreign _ hlook' | plain _ hlook' => cases hlook'.symm.trans hlook
  | foreign hr hlook =>
      intro valid' seen'' hright
      cases hright with
      | primitive hv => cases hv
      | inside hr' => exact absurd hr' hr
      | array _ hlook' => cases hlook'.symm.trans hlook
      | foreign => exact ⟨rfl, rfl⟩
      | plain _ hlook' hproto =>
          obtain ⟨rfl, -⟩ := Obj.plain.inj (Option.some.inj (hlook'.symm.trans hlook))
          exact absurd rfl hproto
  | plain hr hlook hproto _ ih =>
      intro valid' seen'' hright
      cases hright with
      | primitive hv => cases hv
      | inside hr' => exact absurd hr' hr
      | array _ hlook' => cases hlook'.symm.trans hlook
      | foreign _ hlook' =>
          obtain ⟨rfl, -⟩ := Obj.plain.inj (Option.some.inj (hlook'.symm.trans hlook))
          exact absurd rfl hproto
      | plain _ hlook' _ hevery =>
          obtain ⟨-, rfl⟩ := Obj.plain.inj (Option.some.inj (hlook'.symm.trans hlook))
          obtain ⟨rfl, rfl⟩ := ih hevery
          exact ⟨rfl, rfl⟩
  | done =>
      intro valid' seen'' hright
      cases hright
      exact ⟨rfl, rfl⟩
  | stop _ ih =>
      intro valid' seen'' hright
      cases hright with
      | stop hv => exact ⟨rfl, (ih hv).2⟩
      | next hv => cases (ih hv).1
  | next _ _ ih ihs =>
      intro valid' seen'' hright
      cases hright with
      | stop hv => cases (ih hv).1
      | next hv hvs =>
          obtain ⟨-, rfl⟩ := ih hv
          exact ihs hvs

/-- `every` on calls that all leave the set as it was. -/
theorem returns_every {seen : Finset Ref} {result : Value → Bool} : ∀ {vs : List Value},
    (∀ v ∈ vs, Returns h (.value v) seen (result v) seen) →
      Returns h (.every vs) seen (vs.all result) seen
  | [], _ => .done
  | v :: vs, hvs => by
      have hv := hvs v List.mem_cons_self
      rw [List.all_cons]
      cases hresult : result v with
      | false =>
          rw [hresult] at hv
          exact .stop hv
      | true =>
          rw [hresult] at hv
          exact .next hv (returns_every fun w hw => hvs w (List.mem_cons_of_mem _ hw))

/-! ## The objects a call is not inside of -/

/-- The objects that a call can still go into. -/
def outside (h : Heap) (seen : Finset Ref) : Finset Ref := Finset.range h.objs.length \ seen

theorem card_outside_insert {r : Ref} {seen : Finset Ref} (hlt : r < h.objs.length)
    (hr : r ∉ seen) : (outside h (insert r seen)).card + 1 = (outside h seen).card := by
  have hmem : r ∈ outside h seen := Finset.mem_sdiff.mpr ⟨Finset.mem_range.mpr hlt, hr⟩
  rw [outside, Finset.sdiff_insert, ← outside, Finset.card_erase_of_mem hmem]
  have hpos := Finset.card_pos.mpr ⟨r, hmem⟩
  omega

/-! ## The graph -/

/-- The enumerable property values and the elements of an object. -/
def children (h : Heap) : Value → List Value
  | .object r =>
      match h.objs[r]? with
      | some (.array items) => items.filterMap id
      | some (.plain _ props) => props.entries.map Prod.snd
      | none => []
  | _ => []

def Child (h : Heap) (v w : Value) : Prop := w ∈ children h v

/-- A value that is found by following properties and elements. -/
def Reaches (h : Heap) : Value → Value → Prop := ReflTransGen (Child h)

/-- The objects reached from a value form a finite tree of JSON values. -/
structure FiniteTree (h : Heap) (v : Value) : Prop where
  acyclic : ∀ w, Reaches h v w → ¬ TransGen (Child h) w w
  leaves : ∀ w, Reaches h v w → (∀ r, w ≠ .object r) →
    w = .null ∨ (∃ b, w = .boolean b) ∨ (∃ s, w = .string s) ∨
      ∃ n, w = .number n ∧ n.isFinite = true
  prototypes : ∀ r proto props, Reaches h v (.object r) →
    h.objs[r]? = some (.plain proto props) → proto = .objectPrototype ∨ proto = .null

theorem children_array {r : Ref} {items : List (Option Value)}
    (hlook : h.objs[r]? = some (.array items)) : children h (.object r) = items.filterMap id := by
  simp only [children, hlook]

theorem children_plain {r : Ref} {proto : Prototype} {props : Properties}
    (hlook : h.objs[r]? = some (.plain proto props)) :
    children h (.object r) = props.entries.map Prod.snd := by
  simp only [children, hlook]

theorem children_closed {v w : Value} (hw : w ∈ children h v) :
    ∀ r ∈ w.refs, r < h.objs.length := by
  intro r hr
  cases v with
  | object o =>
      cases hlook : h.objs[o]? with
      | none =>
          simp only [children, hlook] at hw
          exact absurd hw List.not_mem_nil
      | some obj =>
          refine h.closed obj (List.mem_of_getElem? hlook) r ?_
          cases obj with
          | array items =>
              rw [children_array hlook, List.mem_filterMap] at hw
              obtain ⟨item, hitem, heq⟩ := hw
              obtain rfl : item = some w := heq
              exact List.mem_flatMap.mpr ⟨some w, hitem, hr⟩
          | plain proto props =>
              rw [children_plain hlook] at hw
              obtain ⟨entry, hentry, rfl⟩ := List.mem_map.mp hw
              exact List.mem_flatMap.mpr ⟨entry, hentry, hr⟩
  | _ => exact absurd hw List.not_mem_nil

theorem primitive_iff {v : Value} : primitive v = some true ↔
    v = .null ∨ (∃ b, v = .boolean b) ∨ (∃ s, v = .string s) ∨
      ∃ n, v = .number n ∧ n.isFinite = true := by
  cases v <;> simp [primitive]

/-- A value itself is a leaf of JSON, or an object that is not foreign. -/
structure Fine (h : Heap) (v : Value) : Prop where
  leaf : (∀ r, v ≠ .object r) → primitive v = some true
  prototype : ∀ r proto props, v = .object r → h.objs[r]? = some (.plain proto props) →
    proto = .objectPrototype ∨ proto = .null

theorem reaches_iff {v w : Value} :
    Reaches h v w ↔ w = v ∨ ∃ u, Child h v u ∧ Reaches h u w := by
  rw [Reaches, ReflTransGen.cases_head_iff, eq_comm]

/-- A finite tree is a fine value with finite trees below that do not lead back. -/
theorem finiteTree_iff {v : Value} : FiniteTree h v ↔
    Fine h v ∧ ∀ w, Child h v w → ¬ Reaches h w v ∧ FiniteTree h w := by
  constructor
  · intro htree
    refine ⟨⟨fun hleaf => primitive_iff.mpr (htree.leaves v .refl hleaf), ?_⟩,
      fun w hw => ⟨fun hback => ?_, ?_⟩⟩
    · rintro r proto props rfl
      exact htree.prototypes r proto props .refl
    · exact htree.acyclic v .refl (TransGen.head' hw hback)
    · have hbelow {u : Value} (hu : Reaches h w u) : Reaches h v u := ReflTransGen.head hw hu
      exact ⟨fun u hu => htree.acyclic u (hbelow hu), fun u hu => htree.leaves u (hbelow hu),
        fun r proto props hr => htree.prototypes r proto props (hbelow hr)⟩
  · rintro ⟨hfine, hbelow⟩
    refine ⟨fun u hu => ?_, fun u hu hleaf => ?_, fun r proto props hr hlook => ?_⟩
    · obtain rfl | ⟨w, hw, hwu⟩ := reaches_iff.mp hu
      · intro hcycle
        obtain ⟨w, hw, hback⟩ := TransGen.head'_iff.mp hcycle
        exact (hbelow w hw).1 hback
      · exact (hbelow w hw).2.acyclic u hwu
    · obtain rfl | ⟨w, hw, hwu⟩ := reaches_iff.mp hu
      · exact primitive_iff.mp (hfine.leaf hleaf)
      · exact (hbelow w hw).2.leaves u hwu hleaf
    · obtain rfl | ⟨w, hw, hwr⟩ := reaches_iff.mp hr
      · exact hfine.prototype r proto props rfl hlook
      · exact (hbelow w hw).2.prototypes r proto props hwr hlook

/-! ## What is returned -/

theorem isJsonValue_primitive {v : Value} {valid : Bool} (hv : primitive v = some valid)
    (fuel : Nat) (seen : Finset Ref) : isJsonValue h fuel v seen = (valid, seen) := by
  cases v with
  | object r => cases hv
  | _ => cases hv; rw [isJsonValue]

theorem object_of_primitive {v : Value} (hv : primitive v = none) : ∃ r, v = .object r := by
  cases v with
  | object r => exact ⟨r, rfl⟩
  | _ => cases hv

/-- With room for the objects that a call is not inside of, it returns what
`isJsonValue` says. -/
theorem returns_isJsonValue : ∀ (fuel : Nat) (v : Value) (seen : Finset Ref),
    (∀ r ∈ v.refs, r < h.objs.length) → (outside h seen).card ≤ fuel →
      Returns h (.value v) seen (isJsonValue h fuel v seen).1 seen := by
  intro fuel
  induction fuel with
  | zero =>
      intro v seen hclosed hfuel
      cases hv : primitive v with
      | some valid =>
          rw [isJsonValue_primitive hv]
          exact .primitive hv
      | none =>
          obtain ⟨r, rfl⟩ := object_of_primitive hv
          by_cases hr : r ∈ seen
          · simp only [isJsonValue, if_pos hr]
            exact .inside hr
          · have hcard := card_outside_insert (hclosed r List.mem_cons_self) hr
            omega
  | succ fuel ih =>
      intro v seen hclosed hfuel
      cases hv : primitive v with
      | some valid =>
          rw [isJsonValue_primitive hv]
          exact .primitive hv
      | none =>
          obtain ⟨r, rfl⟩ := object_of_primitive hv
          by_cases hr : r ∈ seen
          · simp only [isJsonValue, if_pos hr]
            exact .inside hr
          have hlt := hclosed r List.mem_cons_self
          have hcard := card_outside_insert hlt hr
          have hbelow : ∀ w ∈ children h (.object r), Returns h (.value w) (insert r seen)
              (isJsonValue h fuel w (insert r seen)).1 (insert r seen) :=
            fun w hw => ih w _ (children_closed hw) (by omega)
          have herase : (insert r seen).erase r = seen := Finset.erase_insert hr
          cases hlook : h.objs[r]? with
          | none =>
              rw [List.getElem?_eq_getElem hlt] at hlook
              cases hlook
          | some obj =>
              cases obj with
              | array items =>
                  rw [children_array hlook] at hbelow
                  rw [isJsonValue_array hlook hr]
                  have harray := Returns.array hr hlook (returns_every hbelow)
                  rwa [herase] at harray
              | plain proto props =>
                  rw [children_plain hlook] at hbelow
                  rw [isJsonValue_plain hlook hr]
                  by_cases hproto : proto = .other
                  · subst hproto
                    have hforeign := Returns.foreign hr hlook
                    rwa [herase] at hforeign
                  · have hplain := Returns.plain hr hlook hproto (returns_every hbelow)
                    rw [herase] at hplain
                    rwa [bne_iff_ne.mpr hproto, Bool.true_and]

/-- An object is accepted when it is not foreign and its children are, each
inside the object. -/
theorem isJsonValue_object {r : Ref} {seen : Finset Ref} {fuel : Nat} (hlt : r < h.objs.length)
    (hr : r ∉ seen) : (isJsonValue h (fuel + 1) (.object r) seen).1 = true ↔
      Fine h (.object r) ∧
        ∀ w, Child h (.object r) w → (isJsonValue h fuel w (insert r seen)).1 = true := by
  cases hlook : h.objs[r]? with
  | none =>
      rw [List.getElem?_eq_getElem hlt] at hlook
      cases hlook
  | some obj =>
      cases obj with
      | array items =>
          have hfine : Fine h (.object r) := by
            refine ⟨fun hleaf => absurd rfl (hleaf r), fun r' proto props heq hlook' => ?_⟩
            cases heq
            cases hlook.symm.trans hlook'
          rw [isJsonValue_array hlook hr, List.all_eq_true, and_iff_right hfine]
          simp only [Child, children_array hlook]
      | plain proto props =>
          have hfine : Fine h (.object r) ↔ proto ≠ .other := by
            constructor
            · rintro hfine rfl
              obtain heq | heq := hfine.prototype r .other props rfl hlook <;> cases heq
            · refine fun hproto => ⟨fun hleaf => absurd rfl (hleaf r), ?_⟩
              rintro r' proto' props' heq hlook'
              cases heq
              obtain ⟨rfl, -⟩ := Obj.plain.inj (Option.some.inj (hlook.symm.trans hlook'))
              cases proto with
              | other => exact absurd rfl hproto
              | objectPrototype => exact .inl rfl
              | null => exact .inr rfl
          rw [isJsonValue_plain hlook hr, Bool.and_eq_true, bne_iff_ne, List.all_eq_true, hfine]
          simp only [Child, children_plain hlook]

/-- A value that is no object reaches itself only. -/
theorem reaches_primitive {v w : Value} {valid : Bool} (hv : primitive v = some valid) :
    Reaches h v w ↔ w = v := by
  rw [reaches_iff]
  refine or_iff_left ?_
  rintro ⟨u, hu, -⟩
  cases v with
  | object r => cases hv
  | _ => exact absurd hu List.not_mem_nil

theorem isJsonValue_primitive_iff {v : Value} {valid : Bool} (hv : primitive v = some valid)
    (fuel : Nat) (seen : Finset Ref) : (isJsonValue h fuel v seen).1 = true ↔
      FiniteTree h v ∧ ∀ r ∈ seen, ¬ Reaches h v (.object r) := by
  have hleaf : ∀ r, .object r ≠ v := by
    rintro r rfl
    cases hv
  have hnoChild : ∀ w, ¬ Child h v w := by
    intro w hw
    cases v with
    | object r => exact hleaf r rfl
    | _ => exact absurd hw List.not_mem_nil
  have hfine : Fine h v ↔ valid = true := by
    constructor
    · exact fun hfine => Option.some.inj (hv.symm.trans (hfine.leaf fun r => (hleaf r).symm))
    · rintro rfl
      exact ⟨fun _ => hv, fun r _ _ heq => absurd heq.symm (hleaf r)⟩
  rw [isJsonValue_primitive hv, finiteTree_iff, hfine]
  refine ⟨fun hvalid => ⟨⟨hvalid, fun w hw => absurd hw (hnoChild w)⟩, fun r _ hreach => ?_⟩,
    fun h => h.1.1⟩
  exact hleaf r ((reaches_primitive hv).mp hreach)

theorem isJsonValue_inside_iff {r : Ref} {seen : Finset Ref} (hr : r ∈ seen) (fuel : Nat) :
    (isJsonValue h fuel (.object r) seen).1 = true ↔
      FiniteTree h (.object r) ∧ ∀ r' ∈ seen, ¬ Reaches h (.object r) (.object r') := by
  have hvalid : (isJsonValue h fuel (.object r) seen).1 = false := by
    cases fuel <;> simp only [isJsonValue, if_pos hr]
  rw [hvalid]
  exact iff_of_false Bool.false_ne_true fun htree => htree.2 r hr .refl

/-- What is accepted are finite trees that do not lead to an object the call is
inside of. -/
theorem isJsonValue_true_iff : ∀ (fuel : Nat) (v : Value) (seen : Finset Ref),
    (∀ r ∈ v.refs, r < h.objs.length) → (outside h seen).card ≤ fuel →
      ((isJsonValue h fuel v seen).1 = true ↔
        FiniteTree h v ∧ ∀ r ∈ seen, ¬ Reaches h v (.object r)) := by
  intro fuel
  induction fuel with
  | zero =>
      intro v seen hclosed hfuel
      cases hv : primitive v with
      | some valid => exact isJsonValue_primitive_iff hv 0 seen
      | none =>
          obtain ⟨r, rfl⟩ := object_of_primitive hv
          by_cases hr : r ∈ seen
          · exact isJsonValue_inside_iff hr 0
          · have hcard := card_outside_insert (hclosed r List.mem_cons_self) hr
            omega
  | succ fuel ih =>
      intro v seen hclosed hfuel
      cases hv : primitive v with
      | some valid => exact isJsonValue_primitive_iff hv (fuel + 1) seen
      | none =>
          obtain ⟨r, rfl⟩ := object_of_primitive hv
          by_cases hr : r ∈ seen
          · exact isJsonValue_inside_iff hr (fuel + 1)
          have hlt := hclosed r List.mem_cons_self
          have hcard := card_outside_insert hlt hr
          have hbelow : ∀ w, Child h (.object r) w →
              ((isJsonValue h fuel w (insert r seen)).1 = true ↔
                FiniteTree h w ∧ ∀ r' ∈ insert r seen, ¬ Reaches h w (.object r')) :=
            fun w hw => ih w _ (children_closed hw) (by omega)
          rw [isJsonValue_object hlt hr, finiteTree_iff]
          constructor
          · rintro ⟨hfine, hchildren⟩
            refine ⟨⟨hfine, fun w hw => ?_⟩, fun r' hr' hreach => ?_⟩
            · obtain ⟨htree, hnot⟩ := (hbelow w hw).mp (hchildren w hw)
              exact ⟨hnot r (Finset.mem_insert_self r seen), htree⟩
            · obtain heq | ⟨w, hw, hwr⟩ := reaches_iff.mp hreach
              · cases heq
                exact hr hr'
              · exact ((hbelow w hw).mp (hchildren w hw)).2 r' (Finset.mem_insert_of_mem hr') hwr
          · rintro ⟨⟨hfine, htrees⟩, hnot⟩
            refine ⟨hfine, fun w hw => (hbelow w hw).mpr ⟨(htrees w hw).2, fun r' hr' hreach => ?_⟩⟩
            obtain rfl | hr' := Finset.mem_insert.mp hr'
            · exact (htrees w hw).1 hreach
            · exact hnot r' hr' (ReflTransGen.head hw hreach)

end

/-- Two properties with one object are no cycle. -/
def sharedGraph : Graph where
  heap :=
    { objs := [.array [], .plain .null ⟨[(js "a", .object 0), (js "b", .object 0)], by decide⟩]
      closed := by decide }
  root := .object 1
  closed := by decide

/-- `isJsonValue` returns for every value and set of objects, and leaves the set
as it was; it accepts the finite trees that do not lead back into the set. -/
theorem isJsonValue_decides (g : Graph) :
    (∀ seen, ∃ valid,
      (∀ valid' seen', Returns g.heap (.value g.root) seen valid' seen' ↔
        valid' = valid ∧ seen' = seen) ∧
      (valid = true ↔
        FiniteTree g.heap g.root ∧ ∀ r ∈ seen, ¬ Reaches g.heap g.root (.object r))) ∧
    Returns g.heap (.value g.root) ∅ (Graph.isJsonValue g) ∅ ∧
    (Graph.isJsonValue g = true ↔ FiniteTree g.heap g.root) := by
  have hroom (seen : Finset Ref) : (outside g.heap seen).card ≤ g.heap.objs.length :=
    (Finset.card_le_card Finset.sdiff_subset).trans (Finset.card_range _).le
  refine ⟨fun seen => ?_, ?_, ?_⟩
  · have hreturns := returns_isJsonValue _ g.root seen g.closed (hroom seen)
    refine ⟨_, fun valid' seen' => ⟨hreturns.unique, ?_⟩,
      isJsonValue_true_iff _ g.root seen g.closed (hroom seen)⟩
    rintro ⟨rfl, rfl⟩
    exact hreturns
  · exact returns_isJsonValue _ g.root ∅ g.closed (hroom ∅)
  · rw [Graph.isJsonValue, isJsonValue_true_iff _ g.root ∅ g.closed (hroom ∅)]
    exact and_iff_left fun r hr => absurd hr (Finset.notMem_empty r)

example : Graph.isJsonValue sharedGraph = true := by decide

end Benchhand.Contracts
