/-
Benchhand.Js.JsonTheorems — reading a printed JSON text.

The main results are that `Json.stringify` prints the tree a value denotes
(`stringify_of_denotes`), that reading the printed text of any tree gives its
`wire` form (`parseTree_text`), and that the printed text is well formed
UTF-16 whatever the strings in the tree are (`wellFormed_text`). `wire` is the
tree itself exactly when it has no hole, no number that is not finite and no
-0 (`equal_wire_iff`).
-/
import Benchhand.Js.JsonTokenTheorems

namespace Benchhand.Js

open Benchhand.Text

/-! ## Writing a value -/

theorem commaJoin_cons (part : JsString) (parts : List JsString) :
    commaJoin (part :: parts)
      = part ++ ((if parts = [] then [] else [ch ',']) ++ commaJoin parts) := by
  cases parts with
  | nil => simp [commaJoin]
  | cons q parts => simp [commaJoin]

/-- A part for every element, and the elements' text between them. -/
def PartsOf {k : Kind} (parts : List JsString) (t : Node k) : Prop :=
  commaJoin parts = t.text ∧ (parts = [] ↔ t.isEmpty = true)

theorem PartsOf.comma {k : Kind} {parts : List JsString} {t : Node k} (h : PartsOf parts t) :
    (if parts = [] then [] else [ch ',']) = t.comma := by
  simp [Node.comma, h.2]

section Elements

variable {h : Heap} (ser : Value → Except StringifyError (Option JsString)) (bound : Nat)

theorem mapM_ok_cons {α β ε : Type} {f : α → Except ε β} {x : α} {xs : List α} {y : β}
    {ys : List β} (hx : f x = .ok y) (hxs : xs.mapM f = .ok ys) :
    (x :: xs).mapM f = .ok (y :: ys) := by
  rw [List.mapM_cons, hx, hxs]
  rfl

theorem serializeItems_of_denotes
    (hser : ∀ {v : Value} {t : Tree}, Denotes h (k := .value) v t → t.size < bound →
      ser v = .ok (some t.text)) :
    ∀ (items : Node .items) {vs : List (Option Value)}, Denotes h (k := .items) vs items →
      items.size ≤ bound →
      ∃ parts, vs.mapM (Json.serializeItem ser) = .ok parts ∧ PartsOf parts items
  | .noItems, _, hd, _ => ⟨[], by rw [hd]; rfl, rfl, by simp [Node.isEmpty]⟩
  | .hole rest, _, ⟨vs, hvs, hrest⟩, hb => by
      simp only [Node.size] at hb
      obtain ⟨parts, hparts, hof⟩ := serializeItems_of_denotes hser rest hrest (by omega)
      refine ⟨js "null" :: parts, hvs ▸ mapM_ok_cons rfl hparts, ?_, by simp [Node.isEmpty]⟩
      rw [commaJoin_cons, hof.comma, hof.1, Node.text]
  | .item head rest, _, ⟨v, vs, hvs, hhead, hrest⟩, hb => by
      simp only [Node.size] at hb
      obtain ⟨parts, hparts, hof⟩ := serializeItems_of_denotes hser rest hrest (by omega)
      have hitem : Json.serializeItem ser (some v) = .ok head.text := by
        rw [Json.serializeItem, hser hhead (by omega)]; rfl
      refine ⟨head.text :: parts, hvs ▸ mapM_ok_cons hitem hparts, ?_, by simp [Node.isEmpty]⟩
      rw [commaJoin_cons, hof.comma, hof.1, Node.text]

theorem serializeProps_of_denotes
    (hser : ∀ {v : Value} {t : Tree}, Denotes h (k := .value) v t → t.size < bound →
      ser v = .ok (some t.text)) :
    ∀ (props : Node .props) {ps : List (JsString × Value)}, Denotes h (k := .props) ps props →
      props.size ≤ bound →
      ∃ parts, ps.mapM (Json.serializeProp ser) = .ok parts ∧ PartsOf (parts.filterMap id) props
  | .noProps, _, hd, _ => ⟨[], by rw [hd]; rfl, rfl, by simp [Node.isEmpty]⟩
  | .prop key head rest, _, ⟨v, ps, hps, hhead, hrest⟩, hb => by
      simp only [Node.size] at hb
      obtain ⟨parts, hparts, hof⟩ := serializeProps_of_denotes hser rest hrest (by omega)
      have hprop : Json.serializeProp ser (key, v)
          = .ok (some (quote key ++ ch ':' :: head.text)) := by
        rw [Json.serializeProp, hser hhead (by omega)]; rfl
      refine ⟨_, hps ▸ mapM_ok_cons hprop hparts, ?_, by simp [Node.isEmpty]⟩
      rw [List.filterMap_cons_some (f := id) rfl, commaJoin_cons, hof.comma, hof.1, Node.text,
        List.append_assoc, List.cons_append]

end Elements

/-- A list of different places of the heap is not longer than the heap. -/
theorem length_le_of_nodup {n : Nat} {refs : List Ref} (hnodup : refs.Nodup)
    (hlt : ∀ r ∈ refs, r < n) : refs.length ≤ n := by
  have hsub : refs ⊆ List.range n := fun r hr => List.mem_range.mpr (hlt r hr)
  simpa using (hnodup.subperm hsub).length_le

/-- A way to come from places of a heap of `n` objects to trees: to one tree at
most from each. -/
structure OneTree (tree : Ref → Tree → Prop) (n : Nat) : Prop where
  unique : ∀ {r : Ref} {t u : Tree}, tree r t → tree r u → t = u
  lt : ∀ {r : Ref} {t : Tree}, tree r t → r < n

/-- At every place of the list there is a tree larger than `size`: the objects a
value sits in, while its tree is walked. -/
def Above (tree : Ref → Tree → Prop) (size : Nat) (refs : List Ref) : Prop :=
  ∀ r ∈ refs, ∃ t, tree r t ∧ size < t.size

section

variable {tree : Ref → Tree → Prop} {n : Nat} {refs : List Ref} {r : Ref} {t : Tree}

theorem Above.cons {size : Nat} (habove : Above tree t.size refs) (ht : tree r t)
    (hsize : size < t.size) : Above tree size (r :: refs) := by
  rintro r' hr'
  rcases List.mem_cons.mp hr' with rfl | hr'
  · exact ⟨t, ht, hsize⟩
  · obtain ⟨u, hu, hlt⟩ := habove r' hr'
    exact ⟨u, hu, hsize.trans hlt⟩

/-- A value does not sit in itself. -/
theorem Above.not_mem (habove : Above tree t.size refs) (hone : OneTree tree n) (ht : tree r t) :
    r ∉ refs :=
  fun hmem => by
    obtain ⟨u, hu, hlt⟩ := habove r hmem
    exact absurd hlt (by rw [hone.unique ht hu]; exact lt_irrefl _)

theorem Above.lt_length {size : Nat} (habove : Above tree size refs) (hone : OneTree tree n) :
    ∀ r ∈ refs, r < n :=
  fun r hr => by
    obtain ⟨u, hu, -⟩ := habove r hr
    exact hone.lt hu

/-- Below a stack of different objects there is one more, so the stack has not
used up the fuel. -/
theorem Above.fuel_pos (habove : Above tree t.size refs) (hone : OneTree tree n) (ht : tree r t)
    (hnodup : refs.Nodup) : ¬ n ≤ 0 + refs.length := by
  have hpos : 0 < t.size := by cases t <;> simp [Node.size]
  have hlt := (habove.cons ht (Nat.pred_lt_self hpos)).lt_length hone
  have hlen := length_le_of_nodup (List.nodup_cons.mpr ⟨habove.not_mem hone ht, hnodup⟩) hlt
  rw [List.length_cons] at hlen
  omega

end

/-- The tree an object denotes. -/
def Heap.treeAt (h : Heap) (r : Ref) (t : Tree) : Prop := Denotes h (k := .value) (.object r) t

theorem Heap.oneTree (h : Heap) : OneTree h.treeAt h.objs.length where
  unique := Denotes.unique
  lt := by
    intro r t ht
    cases t with
    | array items =>
        obtain ⟨r', vs, hr', hlook, -⟩ := ht
        obtain rfl := Value.object.inj hr'
        exact (List.getElem?_eq_some_iff.mp hlook).1
    | object props =>
        obtain ⟨r', proto, ps, hr', hlook, -⟩ := ht
        obtain rfl := Value.object.inj hr'
        exact (List.getElem?_eq_some_iff.mp hlook).1
    | null | boolean b | number n | string s => exact absurd ht (by simp [Heap.treeAt, Denotes])

/-- Writing a value that denotes a tree writes the tree's text. The stack holds
the objects around the value, so none of them is met again. -/
theorem serialize_of_denotes {h : Heap} : ∀ {fuel : Nat} {stack : List Ref} {v : Value} {t : Tree},
    Denotes h (k := .value) v t → Above h.treeAt t.size stack → stack.Nodup →
    h.objs.length ≤ fuel + stack.length → Json.serialize h fuel stack v = .ok (some t.text) := by
  intro fuel
  induction fuel with
  | zero =>
      intro stack v t hd habove hnodup hfuel
      cases t with
      | null | boolean b | number n | string s => rw [hd]; rfl
      | array items =>
          obtain ⟨r, vs, rfl, hlook, -⟩ := id hd
          exact absurd hfuel (habove.fuel_pos h.oneTree hd hnodup)
      | object props =>
          obtain ⟨r, proto, ps, rfl, hlook, -⟩ := id hd
          exact absurd hfuel (habove.fuel_pos h.oneTree hd hnodup)
  | succ fuel ih =>
      intro stack v t hd habove hnodup hfuel
      cases t with
      | null | boolean b | number n | string s => rw [hd]; rfl
      | array items =>
          obtain ⟨r, vs, rfl, hlook, hitems⟩ := id hd
          have hnot := habove.not_mem h.oneTree hd
          obtain ⟨parts, hparts, hof⟩ := serializeItems_of_denotes
            (Json.serialize h fuel (r :: stack)) items.size
            (fun hv hlt => ih hv (habove.cons hd (by simp only [Node.size]; omega))
              (List.nodup_cons.mpr ⟨hnot, hnodup⟩) (by rw [List.length_cons]; omega))
            items hitems le_rfl
          simp only [Json.serialize, if_neg hnot, hlook, hparts, Except.map, hof.1, Node.text]
      | object props =>
          obtain ⟨r, proto, ps, rfl, hlook, -, hprops⟩ := id hd
          have hnot := habove.not_mem h.oneTree hd
          obtain ⟨parts, hparts, hof⟩ := serializeProps_of_denotes
            (Json.serialize h fuel (r :: stack)) props.size
            (fun hv hlt => ih hv (habove.cons hd (by simp only [Node.size]; omega))
              (List.nodup_cons.mpr ⟨hnot, hnodup⟩) (by rw [List.length_cons]; omega))
            props hprops le_rfl
          simp only [Json.serialize, if_neg hnot, hlook, hparts, Except.map, hof.1, Node.text]

/-- `JSON.stringify` of a value that denotes a tree prints the tree. -/
theorem stringify_of_denotes {g : Graph} {t : Tree} (hd : g.Denotes t) :
    Json.stringify g = .ok (some t.text) :=
  serialize_of_denotes hd (fun _ hr => absurd hr List.not_mem_nil) List.nodup_nil
    (Nat.le_add_right _ _)

/-! ## Reading a tree -/

theorem skipSpace_cons {u : UInt16} (hu : isSpaceUnit u = false) (s : JsString) :
    skipSpace (u :: s) = u :: s := by
  rw [skipSpace, List.dropWhile_cons_of_neg (by simp [hu])]

/-- The first unit of a printed numeral: a sign or a digit. -/
theorem numeral_text_cons {m : Numeral} (hm : m.Valid) :
    ∃ u s, m.text = u :: s ∧ (u = ch '-' ∨ isDigitUnit u = true) := by
  rw [Numeral.text, Numeral.signText]
  cases m.neg with
  | true => exact ⟨_, _, rfl, .inl rfl⟩
  | false =>
      cases hint : m.int with
      | nil => exact absurd hint hm.int_ne_nil
      | cons d ds =>
          have hd := hm.int_digits d (by simp [hint])
          refine ⟨_, _, rfl, .inr ?_⟩
          simp only [isDigitUnit, toNat_digitUnit hd, Bool.and_eq_true, decide_eq_true_eq]
          omega

/-- A sign or a digit opens a number and nothing else. -/
theorem numeralHead_ne {u : UInt16} (hu : u = ch '-' ∨ isDigitUnit u = true) :
    isSpaceUnit u = false ∧
      u ≠ ch '"' ∧ u ≠ ch '[' ∧ u ≠ ch '{' ∧ u ≠ ch 'n' ∧ u ≠ ch 't' ∧ u ≠ ch 'f' ∧
      u ≠ ch ']' := by
  rcases hu with rfl | hu
  · decide
  · simp only [isDigitUnit, Bool.and_eq_true, decide_eq_true_eq] at hu
    have hne : ∀ v : UInt16, (v.toNat < 48 ∨ 57 < v.toNat) → u ≠ v := by
      rintro v hv rfl
      omega
    refine ⟨?_, hne _ (by decide), hne _ (by decide), hne _ (by decide), hne _ (by decide),
      hne _ (by decide), hne _ (by decide), hne _ (by decide)⟩
    simp only [isSpaceUnit, Bool.or_eq_false_iff, beq_eq_false_iff_ne]
    exact ⟨⟨⟨hne _ (by decide), hne _ (by decide)⟩, hne _ (by decide)⟩, hne _ (by decide)⟩

/-- A printed value starts with a unit that is not white space and does not
close an array. -/
theorem value_text_cons (t : Tree) :
    ∃ u s, t.text = u :: s ∧ isSpaceUnit u = false ∧ u ≠ ch ']' := by
  cases t with
  | null => exact ⟨_, _, rfl, by decide⟩
  | boolean b => cases b <;> exact ⟨_, _, rfl, by decide⟩
  | number n =>
      cases n with
      | finite x =>
          obtain ⟨u, s, htext, hu⟩ := numeral_text_cons x.numeral_valid
          have hne := numeralHead_ne hu
          exact ⟨u, s, htext, hne.1, hne.2.2.2.2.2.2.2⟩
      | infinity neg => exact ⟨_, _, rfl, by decide⟩
      | nan => exact ⟨_, _, rfl, by decide⟩
  | string s => exact ⟨_, _, rfl, by decide⟩
  | array items => exact ⟨_, _, rfl, by decide⟩
  | object props => exact ⟨_, _, rfl, by decide⟩

theorem items_text_cons {items : Node .items} (h : items.isEmpty = false) :
    ∃ u s, items.text = u :: s ∧ isSpaceUnit u = false ∧ u ≠ ch ']' := by
  cases items with
  | noItems => exact absurd h (by decide)
  | hole rest => exact ⟨_, _, rfl, by decide⟩
  | item head rest =>
      obtain ⟨u, s, htext, hu⟩ := value_text_cons head
      exact ⟨u, s ++ (rest.comma ++ rest.text), by rw [Node.text, htext, List.cons_append], hu⟩

theorem length_value_text_pos (t : Tree) : 0 < t.text.length := by
  obtain ⟨u, s, htext, -⟩ := value_text_cons t
  rw [htext]
  exact Nat.succ_pos _

/-- The text of a node, followed by what may follow it, is read as its `wire`
form. -/
def ReadsBack : ∀ {k : Kind}, Node k → Prop
  | .value, t => ∀ fuel rest, EndsNumeral rest → 2 * t.text.length < fuel →
      parseNode fuel .value (t.text ++ rest) = some (t.wire, rest)
  | .items, t => t.isEmpty = false → ∀ fuel rest, 2 * t.text.length + 1 < fuel →
      parseNode fuel .items (t.text ++ ch ']' :: rest) = some (t.wire, rest)
  | .props, t => t.isEmpty = false → ∀ fuel rest, 2 * t.text.length + 1 < fuel →
      parseNode fuel .props (t.text ++ ch '}' :: rest) = some (t.wire, rest)

theorem readsBack_null : ReadsBack .null := by
  intro fuel rest _ hfuel
  obtain ⟨fuel, rfl⟩ := Nat.exists_eq_succ_of_ne_zero (Nat.ne_of_gt (Nat.zero_lt_of_lt hfuel))
  rfl

theorem readsBack_boolean (b : Bool) : ReadsBack (.boolean b) := by
  intro fuel rest _ hfuel
  obtain ⟨fuel, rfl⟩ := Nat.exists_eq_succ_of_ne_zero (Nat.ne_of_gt (Nat.zero_lt_of_lt hfuel))
  cases b <;> rfl

theorem readsBack_number (n : Number) : ReadsBack (.number n) := by
  cases n with
  | infinity neg => exact readsBack_null
  | nan => exact readsBack_null
  | finite x =>
      intro fuel rest hrest hfuel
      obtain ⟨fuel, rfl⟩ := Nat.exists_eq_succ_of_ne_zero (Nat.ne_of_gt (Nat.zero_lt_of_lt hfuel))
      have hparse := parseNumeral_text x.numeral_valid hrest
      obtain ⟨u, s, htext, hu⟩ := numeral_text_cons x.numeral_valid
      obtain ⟨hspace, h1, h2, h3, h4, h5, h6, -⟩ := numeralHead_ne hu
      rw [htext, List.cons_append] at hparse
      simp only [Node.text, Number.text, htext, List.cons_append, parseNode, skipSpace_cons hspace,
        if_neg h1, if_neg h2, if_neg h3, if_neg h4, if_neg h5, if_neg h6, hparse, Option.map_some,
        x.value_numeral, Node.wire]

theorem readsBack_string (s : JsString) : ReadsBack (.string s) := by
  intro fuel rest _ hfuel
  obtain ⟨fuel, rfl⟩ := Nat.exists_eq_succ_of_ne_zero (Nat.ne_of_gt (Nat.zero_lt_of_lt hfuel))
  have hmark : isSpaceUnit (ch '"') = false := by decide
  simp only [Node.text, quote, List.cons_append, List.append_assoc, List.nil_append, parseNode,
    skipSpace_cons hmark, if_true, parseChars_quoteUnits, bind, Option.bind, pure, Node.wire]

theorem isEmpty_items {items : Node .items} (h : items.isEmpty = true) : items = .noItems := by
  cases items <;> simp_all [Node.isEmpty]

theorem isEmpty_props {props : Node .props} (h : props.isEmpty = true) : props = .noProps := by
  cases props <;> simp_all [Node.isEmpty]

theorem readsBack_array {items : Node .items} (ih : ReadsBack items) :
    ReadsBack (.array items) := by
  intro fuel rest _ hfuel
  obtain ⟨fuel, rfl⟩ := Nat.exists_eq_succ_of_ne_zero (Nat.ne_of_gt (Nat.zero_lt_of_lt hfuel))
  have hopen : isSpaceUnit (ch '[') = false := by decide
  have hclose : isSpaceUnit (ch ']') = false := by decide
  have hmark : ch '[' ≠ ch '"' := by decide
  simp only [Node.text, List.cons_append, List.append_assoc, List.nil_append,
    List.length_cons, List.length_append, List.length_nil] at hfuel ⊢
  cases hempty : items.isEmpty with
  | true =>
      obtain rfl := isEmpty_items hempty
      simp only [Node.text, List.nil_append, parseNode, skipSpace_cons hopen, if_neg hmark,
        if_true, skipSpace_cons hclose, List.head?_cons, List.tail_cons, Node.wire]
  | false =>
      obtain ⟨u, s, htext, hspace, hne⟩ := items_text_cons hempty
      have hhead : (skipSpace (items.text ++ ch ']' :: rest)).head? ≠ some (ch ']') := by
        rw [htext, List.cons_append, skipSpace_cons hspace]
        exact fun h => hne (Option.some.inj h)
      simp only [parseNode, skipSpace_cons hopen, if_neg hmark, if_true, if_neg hhead,
        ih hempty fuel rest (by omega), bind, Option.bind, pure, Node.wire]

theorem readsBack_object {props : Node .props} (ih : ReadsBack props) :
    ReadsBack (.object props) := by
  intro fuel rest _ hfuel
  obtain ⟨fuel, rfl⟩ := Nat.exists_eq_succ_of_ne_zero (Nat.ne_of_gt (Nat.zero_lt_of_lt hfuel))
  have hopen : isSpaceUnit (ch '{') = false := by decide
  have hclose : isSpaceUnit (ch '}') = false := by decide
  have hmark : ch '{' ≠ ch '"' := by decide
  have hbracket : ch '{' ≠ ch '[' := by decide
  simp only [Node.text, List.cons_append, List.append_assoc, List.nil_append,
    List.length_cons, List.length_append, List.length_nil] at hfuel ⊢
  cases hempty : props.isEmpty with
  | true =>
      obtain rfl := isEmpty_props hempty
      simp only [Node.text, List.nil_append, parseNode, skipSpace_cons hopen, if_neg hmark,
        if_neg hbracket, if_true, skipSpace_cons hclose, List.head?_cons, List.tail_cons, Node.wire]
  | false =>
      have hhead : (skipSpace (props.text ++ ch '}' :: rest)).head? ≠ some (ch '}') := by
        cases props with
        | noProps => exact absurd hempty (by decide)
        | prop key head rest =>
            have hquote : isSpaceUnit (ch '"') = false := by decide
            simp only [Node.text, quote, List.cons_append, skipSpace_cons hquote,
              List.head?_cons, ne_eq, Option.some.injEq]
            decide
      simp only [parseNode, skipSpace_cons hopen, if_neg hmark, if_neg hbracket, if_true,
        if_neg hhead, ih hempty fuel rest (by omega), bind, Option.bind, pure, Node.wire]

/-- A value in an array is followed by a comma and the rest, or by the end. -/
theorem parseItems_step {fuel : Nat} {s : JsString} {head : Tree} {tail : Node .items}
    {rest : JsString}
    (hhead : parseNode fuel .value (s ++ (tail.comma ++ (tail.text ++ ch ']' :: rest)))
      = some (head, tail.comma ++ (tail.text ++ ch ']' :: rest)))
    (ih : ReadsBack tail) (hfuel : 2 * tail.text.length + 1 < fuel) :
    parseNode (fuel + 1) .items (s ++ (tail.comma ++ (tail.text ++ ch ']' :: rest)))
      = some (.item head tail.wire, rest) := by
  have hcomma : isSpaceUnit (ch ',') = false := by decide
  have hclose : isSpaceUnit (ch ']') = false := by decide
  have hne : ch ']' ≠ ch ',' := by decide
  rw [parseNode, hhead]
  cases hempty : tail.isEmpty with
  | true =>
      obtain rfl := isEmpty_items hempty
      simp only [Node.comma, hempty, if_true, Node.text, List.nil_append, bind, Option.bind,
        skipSpace_cons hclose, if_neg hne, Node.wire]
  | false =>
      simp only [Node.comma, hempty, Bool.false_eq_true, if_false, List.cons_append,
        List.nil_append, bind, Option.bind, skipSpace_cons hcomma, if_true,
        ih hempty fuel rest hfuel, pure]

/-- What follows an element of an array or object does not continue a number. -/
theorem endsNumeral_comma {k : Kind} {t : Node k} (htext : t.isEmpty = true → t.text = [])
    {c : UInt16} (hclose : isNumeralUnit c = false) (rest : JsString) :
    EndsNumeral (t.comma ++ (t.text ++ c :: rest)) := by
  rw [Node.comma]
  split
  · rename_i h
    rw [htext h]
    exact endsNumeral_cons hclose rest
  · exact endsNumeral_cons (by decide) _

theorem items_text_nil {items : Node .items} (h : items.isEmpty = true) : items.text = [] := by
  rw [isEmpty_items h, Node.text]

theorem props_text_nil {props : Node .props} (h : props.isEmpty = true) : props.text = [] := by
  rw [isEmpty_props h, Node.text]

theorem readsBack_item {head : Tree} {tail : Node .items} (ihHead : ReadsBack head)
    (ihTail : ReadsBack tail) : ReadsBack (.item head tail) := by
  intro _ fuel rest hfuel
  obtain ⟨fuel, rfl⟩ := Nat.exists_eq_succ_of_ne_zero (Nat.ne_of_gt (Nat.zero_lt_of_lt hfuel))
  have hpos := length_value_text_pos head
  simp only [Node.text, List.append_assoc, List.length_append] at hfuel ⊢
  exact parseItems_step (ihHead fuel _ (endsNumeral_comma items_text_nil (by decide) rest)
    (by omega)) ihTail (by omega)

theorem readsBack_hole {tail : Node .items} (ih : ReadsBack tail) : ReadsBack (.hole tail) :=
  readsBack_item readsBack_null ih

theorem readsBack_prop {key : JsString} {head : Tree} {tail : Node .props}
    (ihHead : ReadsBack head) (ihTail : ReadsBack tail) : ReadsBack (.prop key head tail) := by
  intro _ fuel rest hfuel
  obtain ⟨fuel, rfl⟩ := Nat.exists_eq_succ_of_ne_zero (Nat.ne_of_gt (Nat.zero_lt_of_lt hfuel))
  have hpos := length_value_text_pos head
  have hmark : isSpaceUnit (ch '"') = false := by decide
  have hcolon : isSpaceUnit (ch ':') = false := by decide
  have hcomma : isSpaceUnit (ch ',') = false := by decide
  have hclose : isSpaceUnit (ch '}') = false := by decide
  have hne : ch '}' ≠ ch ',' := by decide
  simp only [Node.text, quote, List.append_assoc, List.length_append, List.length_cons,
    List.cons_append, List.nil_append] at hfuel ⊢
  have hhead := ihHead fuel _ (endsNumeral_comma (t := tail) props_text_nil
    (c := ch '}') (by decide) rest) (by omega)
  simp only [parseNode, skipSpace_cons hmark, if_true, parseChars_quoteUnits, bind, Option.bind,
    skipSpace_cons hcolon, hhead]
  cases hempty : tail.isEmpty with
  | true =>
      obtain rfl := isEmpty_props hempty
      simp only [Node.comma, hempty, if_true, Node.text, List.nil_append,
        skipSpace_cons hclose, if_neg hne, Node.wire]
  | false =>
      simp only [Node.comma, hempty, Bool.false_eq_true, if_false, List.cons_append,
        List.nil_append, skipSpace_cons hcomma, if_true,
        ihTail hempty fuel rest (by omega), pure, Node.wire]

theorem readsBack : ∀ {k : Kind} (t : Node k), ReadsBack t := by
  intro k t
  induction t with
  | null => exact readsBack_null
  | boolean b => exact readsBack_boolean b
  | number n => exact readsBack_number n
  | string s => exact readsBack_string s
  | array items ih => exact readsBack_array ih
  | object props ih => exact readsBack_object ih
  | noItems => exact fun h => absurd h (by decide)
  | hole rest ih => exact readsBack_hole ih
  | item head rest ihHead ihRest => exact readsBack_item ihHead ihRest
  | noProps => exact fun h => absurd h (by decide)
  | prop key head rest ihHead ihRest => exact readsBack_prop ihHead ihRest

/-- Reading the text of a tree gives its `wire` form. -/
theorem parseTree_text (t : Tree) : Json.parseTree t.text = some t.wire := by
  have hread := readsBack t (2 * t.text.length + 1) [] (fun u hu => absurd hu (by simp))
    (Nat.lt_succ_self _)
  rw [List.append_nil] at hread
  rw [Json.parseTree, hread]
  rfl

/-! ## What reading loses -/

theorem keys_wire : ∀ props : Node .props, props.wire.keys = props.keys
  | .noProps => by rw [Node.wire]
  | .prop key head rest => by rw [Node.wire, Node.keys, Node.keys, keys_wire rest]

theorem keysNodup_wire : ∀ {k : Kind} {t : Node k}, t.KeysNodup → t.wire.KeysNodup := by
  intro k t
  induction t with
  | null | boolean b | string s | noItems | noProps => exact id
  | number n => intro _; cases n <;> trivial
  | array items ih => exact ih
  | object props ih => exact fun h => ⟨keys_wire props ▸ h.1, ih h.2⟩
  | hole rest ih => exact fun h => ⟨trivial, ih h⟩
  | item head rest ihHead ihRest => exact fun h => ⟨ihHead h.1, ihRest h.2⟩
  | prop key head rest ihHead ihRest => exact fun h => ⟨ihHead h.1, ihRest h.2⟩

/-- What is read from a printed text has finite numbers only. -/
theorem allFinite_wire : ∀ {k : Kind} (t : Node k), t.wire.AllFinite := by
  intro k t
  induction t with
  | null | boolean b | string s | noItems | noProps => trivial
  | number n => cases n <;> trivial
  | array items ih | object props ih => exact ih
  | hole rest ih => exact ⟨trivial, ih⟩
  | item head rest ihHead ihRest | prop key head rest ihHead ihRest => exact ⟨ihHead, ihRest⟩

/-- Numbers that are the same for `same` before and after printing. -/
def KeptBy (same : Number → Number → Prop) : ∀ {k : Kind}, Node k → Prop
  | _, .number n => ∀ x, n = .finite x → same n (.finite (if x.isZero then .zero false else x))
  | _, .array items => KeptBy same items
  | _, .object props => KeptBy same props
  | _, .hole rest => KeptBy same rest
  | _, .item head rest => KeptBy same head ∧ KeptBy same rest
  | _, .prop _ head rest => KeptBy same head ∧ KeptBy same rest
  | _, .null | _, .boolean _ | _, .string _ | _, .noItems | _, .noProps => True

/-- A tree with finite numbers survives printing and reading exactly when it
has no hole and its numbers are kept. -/
theorem equal_wire_iff {same : Number → Number → Prop} : ∀ {k : Kind} {t : Node k}, t.AllFinite →
    (t.Equal same t.wire ↔ t.NoHoles ∧ KeptBy same t) := by
  intro k t
  induction t with
  | null | boolean b | string s | noItems | noProps =>
      intro _; simp [Node.Equal, Node.wire, Node.NoHoles, KeptBy]
  | number n =>
      intro h
      cases n with
      | finite x => simp [Node.Equal, Node.wire, Node.NoHoles, KeptBy]
      | infinity neg | nan => exact absurd h (by simp [Node.AllFinite, Number.isFinite])
  | array items ih | object props ih =>
      intro h
      simpa only [Node.Equal, Node.wire, Node.NoHoles, KeptBy] using ih h
  | hole rest ih => intro _; simp [Node.Equal, Node.wire, Node.NoHoles]
  | item head rest ihHead ihRest =>
      intro h
      simp only [Node.Equal, Node.wire, Node.NoHoles, KeptBy, ihHead h.1, ihRest h.2]
      tauto
  | prop key head rest ihHead ihRest =>
      intro h
      simp only [Node.Equal, Node.wire, Node.get?, Node.without, if_true, Option.some.injEq,
        exists_eq_left', Node.NoHoles, KeptBy, ihHead h.1, ihRest h.2]
      tauto

theorem Double.isZero_iff (x : Double) : x.isZero = true ↔ x = .zero x.neg := by
  constructor
  · intro h
    exact Double.eq_zero_of_mant (by simpa [Double.isZero] using h)
  · intro h
    rw [h]
    rfl

/-- Printing keeps every number but -0. -/
theorem keptBy_eq_iff : ∀ {k : Kind} {t : Node k}, KeptBy (· = ·) t ↔ t.NoNegZero := by
  intro k t
  induction t with
  | null | boolean b | string s | noItems | noProps => simp [KeptBy, Node.NoNegZero]
  | number n =>
      simp only [KeptBy, Node.NoNegZero]
      constructor
      · rintro h rfl
        exact absurd (h _ rfl) (by decide)
      · rintro h x rfl
        split
        · rename_i hx
          rw [Double.isZero_iff] at hx
          cases hneg : x.neg with
          | true => exact absurd (by rw [hx, hneg]) h
          | false => rw [hneg] at hx; rw [hx]
        · rfl
  | array items ih | object props ih | hole rest ih => simpa [KeptBy, Node.NoNegZero] using ih
  | item head rest ihHead ihRest | prop key head rest ihHead ihRest =>
      simp [KeptBy, Node.NoNegZero, ihHead, ihRest]

/-- For `===`, where -0 and 0 are the same, printing keeps every number. -/
theorem keptBy_strictEquals : ∀ {k : Kind} (t : Node k),
    KeptBy (fun m n => m.strictEquals n = true) t := by
  intro k t
  induction t with
  | null | boolean b | string s | noItems | noProps => trivial
  | number n =>
      rintro x rfl
      simp only [Number.strictEquals, Bool.or_eq_true, beq_iff_eq, Bool.and_eq_true]
      split
      · rename_i hx
        exact .inr ⟨hx, rfl⟩
      · exact .inl rfl
  | array items ih | object props ih | hole rest ih => exact ih
  | item head rest ihHead ihRest | prop key head rest ihHead ihRest => exact ⟨ihHead, ihRest⟩

/-! ## The text is well formed -/

/-- A printed text is well formed, so storing it as UTF-8 loses nothing. -/
theorem wellFormed_text : ∀ {k : Kind} (t : Node k), WellFormed t.text := by
  have hcomma : ∀ {k : Kind} (t : Node k), WellFormed t.comma := by
    intro k t
    rw [Node.comma]
    split
    · exact wellFormed_nil
    · exact wellFormed_one (by decide)
  intro k t
  induction t with
  | null => exact wellFormed_js _
  | boolean b => cases b <;> exact wellFormed_js _
  | number n =>
      cases n with
      | finite x => exact wellFormed_numeral x.numeral_valid
      | infinity neg => exact wellFormed_js _
      | nan => exact wellFormed_js _
  | string s => exact wellFormed_quote s
  | array items ih | object props ih =>
      exact (ih.append (wellFormed_one (by decide))).cons (by decide)
  | noItems | noProps => exact wellFormed_nil
  | hole rest ih => exact (wellFormed_js _).append ((hcomma rest).append ih)
  | item head rest ihHead ihRest => exact ihHead.append ((hcomma rest).append ihRest)
  | prop key head rest ihHead ihRest =>
      exact (wellFormed_quote key).append
        (WellFormed.cons (by decide) (ihHead.append ((hcomma rest).append ihRest)))

end Benchhand.Js
