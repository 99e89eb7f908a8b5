/-
Benchhand.Js.LiveTheorems — what is written of a value, and what is found.

`Live.told` gives trees that reading their text keeps (`told_written`). Of a
value that shows every reader the same, `JSON.stringify` is told the tree that
the caller finds, in its `wire` form (`told_of_finds`). On graphs of plain data
`Live.stringify` is `Json.stringify` (`stringify_ofGraph`), and the caller
finds the tree that the graph denotes when every object in it has
`Object.prototype` (`finds_of_denotes`).
-/
import Benchhand.Js.Live

namespace Benchhand.Js

open Benchhand.Text

/-! ## The tree that is written -/

/-- A tree that is its own `wire` form, with no key twice. -/
structure Node.Written {k : Kind} (t : Node k) : Prop where
  wire_eq : t.wire = t
  keysNodup : t.KeysNodup

theorem written_number (n : Number) : (Node.number n).wire.Written := by
  cases n with
  | finite x =>
      refine ⟨?_, trivial⟩
      simp only [Node.wire, Node.number.injEq, Number.finite.injEq]
      by_cases hx : x.isZero = true
      · rw [if_pos hx]; rfl
      · rw [if_neg hx, if_neg hx]
  | infinity neg | nan => exact ⟨rfl, trivial⟩

theorem bind_eq_ok {ε α β : Type} {x : Except ε α} {f : α → Except ε β} {b : β}
    (h : x >>= f = .ok b) : ∃ a, x = .ok a ∧ f a = .ok b := by
  cases x with
  | error e => exact absurd h (by simp [bind, Except.bind])
  | ok a => exact ⟨a, rfl, h⟩

section Elements

variable {tell : Read → Except ThrownValue (Option Tree)}

theorem tellItems_written (htell : ∀ {read t}, tell read = .ok (some t) → t.Written) :
    ∀ (reads : List (Option Read)) {items : Node .items}, tellItems tell reads = .ok items →
      items.Written
  | [], _, h => by
      obtain rfl := Except.ok.inj h
      exact ⟨rfl, trivial⟩
  | none :: reads, _, h => by
      obtain ⟨rest, hrest, h⟩ := bind_eq_ok h
      obtain rfl := Except.ok.inj h
      have ih := tellItems_written htell reads hrest
      exact ⟨by simp only [Node.wire, ih.wire_eq], trivial, ih.keysNodup⟩
  | some read :: reads, _, h => by
      obtain ⟨head, hhead, h⟩ := bind_eq_ok h
      obtain ⟨rest, hrest, h⟩ := bind_eq_ok h
      obtain rfl := Except.ok.inj h
      have ih := tellItems_written htell reads hrest
      have hwritten : (head.getD .null).Written := by
        cases head with
        | none => exact ⟨rfl, trivial⟩
        | some t => exact htell hhead
      exact ⟨by simp only [Node.wire, hwritten.wire_eq, ih.wire_eq], hwritten.keysNodup,
        ih.keysNodup⟩

theorem tellProps_written (htell : ∀ {read t}, tell read = .ok (some t) → t.Written) :
    ∀ (reads : List (JsString × Read)) {props : Node .props}, tellProps tell reads = .ok props →
      props.keys.Sublist (reads.map Prod.fst) ∧ props.wire = props ∧ props.KeysNodup
  | [], _, h => by
      obtain rfl := Except.ok.inj h
      exact ⟨by rw [Node.keys]; exact List.nil_sublist _, rfl, trivial⟩
  | (key, read) :: reads, _, h => by
      obtain ⟨head, hhead, h⟩ := bind_eq_ok h
      obtain ⟨rest, hrest, h⟩ := bind_eq_ok h
      obtain ⟨hkeys, hwire, hnodup⟩ := tellProps_written htell reads hrest
      cases head with
      | none =>
          obtain rfl := Except.ok.inj h
          exact ⟨hkeys.cons key, hwire, hnodup⟩
      | some t =>
          obtain rfl := Except.ok.inj h
          have hwritten := htell hhead
          refine ⟨?_, by simp only [Node.wire, hwritten.wire_eq, hwire], hwritten.keysNodup, hnodup⟩
          rw [Node.keys]
          exact hkeys.cons_cons key

end Elements

theorem Members.nodup_named (ms : Members) : (ms.named.map Prod.fst).Nodup := by
  have hnames : ms.named.map Prod.fst = (ms.entries.map Prod.fst).filterMap Key.name := by
    rw [Members.named, List.map_filterMap, List.filterMap_map]
    congr 1
    funext ⟨key, read⟩
    cases key <;> rfl
  rw [hnames]
  refine List.Nodup.filterMap (fun k l s hk hl => ?_) ms.nodup
  cases k <;> cases l <;> simp_all [Key.name]

theorem tell_written {objs : List LiveObject} : ∀ {fuel : Nat} {stack : List Ref} {v : Value}
    {t : Tree}, Live.tell objs fuel stack v = .ok (some t) → t.Written := by
  intro fuel
  induction fuel with
  | zero =>
      intro stack v t h
      cases v with
      | null | boolean b | string s =>
          obtain rfl := Option.some.inj (Except.ok.inj h)
          exact ⟨rfl, trivial⟩
      | number n =>
          obtain rfl := Option.some.inj (Except.ok.inj h)
          exact written_number n
      | undefined | symbol | function | bigint n => exact absurd h (by simp [Live.tell])
      | object r =>
          simp only [Live.tell] at h
          split at h <;> exact absurd h (by simp)
  | succ fuel ih =>
      intro stack v t h
      cases v with
      | null | boolean b | string s =>
          obtain rfl := Option.some.inj (Except.ok.inj h)
          exact ⟨rfl, trivial⟩
      | number n =>
          obtain rfl := Option.some.inj (Except.ok.inj h)
          exact written_number n
      | undefined | symbol | function | bigint n => exact absurd h (by simp [Live.tell])
      | object r =>
          simp only [Live.tell] at h
          split at h
          · exact absurd h (by simp)
          have htell : ∀ {read : Read} {t : Tree},
              tellRead objs (Live.tell objs fuel (r :: stack)) read = .ok (some t) → t.Written := by
            intro read t h
            obtain ⟨v, -, h⟩ := bind_eq_ok h
            obtain ⟨form, -, h⟩ := bind_eq_ok h
            exact ih h
          split at h
          · exact absurd h (by simp)
          · exact absurd h (by simp)
          · obtain ⟨items, hitems, h⟩ := bind_eq_ok h
            obtain rfl := Option.some.inj (Except.ok.inj h)
            have hwritten := tellItems_written htell _ hitems
            exact ⟨by rw [Node.wire, hwritten.wire_eq], hwritten.keysNodup⟩
          · rename_i proto members _
            obtain ⟨props, hprops, h⟩ := bind_eq_ok h
            obtain rfl := Option.some.inj (Except.ok.inj h)
            obtain ⟨hkeys, hwire, hnodup⟩ := tellProps_written htell _ hprops
            exact ⟨by rw [Node.wire, hwire], hkeys.nodup members.nodup_named, hnodup⟩

/-- Reading the text of the tree gives the tree. -/
theorem told_written {v : Live} {t : Tree} (h : v.told = .ok (some t)) : t.Written := by
  obtain ⟨root, -, h⟩ := bind_eq_ok h
  obtain ⟨form, -, h⟩ := bind_eq_ok h
  exact tell_written h

/-! ## What is found -/

section

variable {objs : List LiveObject}

theorem Finds.unique : ∀ {k : Kind} {s : Sight k} {t u : Node k},
    Finds objs s t → Finds objs s u → t = u := by
  intro k s t
  induction t with
  | null | boolean b | number n | string s =>
      intro u ht hu
      cases u <;> simp_all [Finds]
  | array items ih =>
      rintro u ⟨r, found, rfl, hr, hi⟩ hu
      cases u with
      | array items' =>
          obtain ⟨r', found', hv, hr', hi'⟩ := hu
          obtain rfl := Value.object.inj (Except.ok.inj hv)
          obtain ⟨-, rfl, -⟩ := Face.array.inj (Option.some.inj (hr.symm.trans hr'))
          rw [ih hi hi']
      | object props' =>
          obtain ⟨r', members, hv, hr', -⟩ := hu
          obtain rfl := Value.object.inj (Except.ok.inj hv)
          exact absurd (hr.symm.trans hr') (by simp)
      | null | boolean b | number n | string s => exact absurd hu (by simp [Finds])
  | object props ih =>
      rintro u ⟨r, members, rfl, hr, hi⟩ hu
      cases u with
      | array items' =>
          obtain ⟨r', found', hv, hr', -⟩ := hu
          obtain rfl := Value.object.inj (Except.ok.inj hv)
          exact absurd (hr.symm.trans hr') (by simp)
      | object props' =>
          obtain ⟨r', members', hv, hr', hi'⟩ := hu
          obtain rfl := Value.object.inj (Except.ok.inj hv)
          obtain ⟨-, rfl⟩ := Face.object.inj (Option.some.inj (hr.symm.trans hr'))
          rw [ih hi hi']
      | null | boolean b | number n | string s => exact absurd hu (by simp [Finds])
  | noItems => intro u ht hu; cases u <;> simp_all [Finds]
  | hole rest ih =>
      rintro u ⟨found, rfl, ht⟩ hu
      cases u with
      | hole rest' =>
          obtain ⟨found', hv, hu'⟩ := hu
          rw [ih ht ((List.cons.inj hv).2 ▸ hu')]
      | noItems | item head' rest' => simp [Finds] at hu
  | item head rest ihHead ihRest =>
      rintro u ⟨read, found, rfl, hh, ht⟩ hu
      cases u with
      | item head' rest' =>
          obtain ⟨read', found', hv, hh', ht'⟩ := hu
          obtain ⟨rfl, rfl⟩ : read = read' ∧ found = found' := by simpa using hv
          rw [ihHead hh hh', ihRest ht ht']
      | noItems | hole rest' => simp [Finds] at hu
  | noProps => intro u ht hu; cases u <;> simp_all [Finds]
  | prop key head rest ihHead ihRest =>
      rintro u ⟨read, found, rfl, hh, ht⟩ hu
      cases u with
      | prop key' head' rest' =>
          obtain ⟨read', found', hv, hh', ht'⟩ := hu
          obtain ⟨⟨rfl, rfl⟩, rfl⟩ : (key = key' ∧ read = read') ∧ found = found' := by
            simpa using hv
          rw [ihHead hh hh', ihRest ht ht']
      | noProps => simp [Finds] at hu

/-- The tree that is found in an object. -/
def foundAt (objs : List LiveObject) (r : Ref) (t : Tree) : Prop :=
  Finds objs (k := .value) (.ok (.object r)) t

theorem oneTree_found (objs : List LiveObject) : OneTree (foundAt objs) objs.length where
  unique := Finds.unique
  lt := by
    have hlook : ∀ {r : Ref} {face : Face}, (objs[r]?).map LiveObject.returned = some face →
        r < objs.length := by
      intro r face hr
      obtain ⟨o, ho, -⟩ := Option.map_eq_some_iff.mp hr
      exact (List.getElem?_eq_some_iff.mp ho).1
    intro r t ht
    cases t with
    | array items =>
        obtain ⟨r', found, hr', hface, -⟩ := ht
        obtain rfl := Value.object.inj (Except.ok.inj hr')
        exact hlook hface
    | object props =>
        obtain ⟨r', members, hr', hface, -⟩ := ht
        obtain rfl := Value.object.inj (Except.ok.inj hr')
        exact hlook hface
    | null | boolean b | number n | string s => exact absurd ht (by simp [foundAt, Finds])

section Elements

variable (tell : Read → Except ThrownValue (Option Tree)) (bound : Nat)
  (htell : ∀ {read : Read} {t : Tree}, Finds objs (k := .value) read t → t.size < bound →
    tell read = .ok (some t.wire))

include htell

theorem tellItems_of_finds : ∀ (items : Node .items) {found : List (Option Read)},
    Finds objs (k := .items) found items → items.size ≤ bound →
    tellItems tell found = .ok items.wire
  | .noItems, _, hfinds, _ => by rw [hfinds]; rfl
  | .hole rest, _, ⟨found, hfound, hrest⟩, hb => by
      simp only [Node.size] at hb
      rw [hfound, tellItems, tellItems_of_finds rest hrest (by omega)]
      rfl
  | .item head rest, _, ⟨read, found, hfound, hhead, hrest⟩, hb => by
      simp only [Node.size] at hb
      rw [hfound, tellItems, htell hhead (by omega), tellItems_of_finds rest hrest (by omega)]
      rfl

theorem tellProps_of_finds : ∀ (props : Node .props) {found : List (Key × Read)},
    Finds objs (k := .props) found props → props.size ≤ bound →
    tellProps tell (found.filterMap fun e => e.1.name.map fun key => (key, e.2)) = .ok props.wire
  | .noProps, _, hfinds, _ => by rw [hfinds]; rfl
  | .prop key head rest, _, ⟨read, found, hfound, hhead, hrest⟩, hb => by
      simp only [Node.size] at hb
      have htold := tellProps_of_finds rest hrest (by omega)
      rw [hfound]
      change tellProps tell ((key, read) :: found.filterMap _) = _
      rw [tellProps, htell hhead (by omega), htold]
      rfl

end Elements

variable {v : Live}

/-- The value written in place of one that shows every reader the same. -/
theorem Live.Inert.jsonForm_eq (hinert : v.Inert) (w : Value) : jsonForm v.objs w = .ok w := by
  cases w with
  | object r =>
      simp only [jsonForm]
      cases ho : v.objs[r]? with
      | none => rfl
      | some o => simp [(hinert o (List.mem_of_getElem? ho)).2.2]
  | _ => rfl

theorem Live.Inert.tellRead_eq (hinert : v.Inert)
    (tell : Value → Except ThrownValue (Option Tree)) (w : Value) :
    tellRead v.objs tell (.ok w) = tell w := by
  simp only [tellRead, bind, Except.bind, hinert.jsonForm_eq]

theorem Live.Inert.encoded_eq (hinert : v.Inert) (r : Ref) :
    (v.objs[r]?).map LiveObject.encoded = (v.objs[r]?).map LiveObject.returned := by
  cases ho : v.objs[r]? with
  | none => rfl
  | some o => simp [(hinert o (List.mem_of_getElem? ho)).2.1]

/-- `JSON.stringify` is told the tree the caller finds. The stack holds the
objects around the value, so none of them is met again. -/
theorem tell_of_finds (hinert : v.Inert) : ∀ {fuel : Nat} {stack : List Ref} {w : Value} {t : Tree},
    Js.Finds v.objs (k := .value) (.ok w) t → Above (foundAt v.objs) t.size stack → stack.Nodup →
    v.objs.length ≤ fuel + stack.length → Live.tell v.objs fuel stack w = .ok (some t.wire) := by
  have hprimitive : ∀ {fuel : Nat} {stack : List Ref} {w : Value} {t : Tree},
      Js.Finds v.objs (k := .value) (.ok w) t → (∀ r, w ≠ .object r) →
      Live.tell v.objs fuel stack w = .ok (some t.wire) := by
    intro fuel stack w t hfinds hne
    cases t with
    | null | boolean b | number n | string s =>
        obtain rfl := Except.ok.inj hfinds
        cases fuel <;> rfl
    | array items =>
        obtain ⟨r, found, hr, -⟩ := hfinds
        exact absurd (Except.ok.inj hr) (hne r)
    | object props =>
        obtain ⟨r, members, hr, -⟩ := hfinds
        exact absurd (Except.ok.inj hr) (hne r)
  intro fuel
  induction fuel with
  | zero =>
      intro stack w t hfinds habove hnodup hfuel
      cases w with
      | object r => exact absurd hfuel (habove.fuel_pos (oneTree_found v.objs) hfinds hnodup)
      | _ => exact hprimitive hfinds (by simp)
  | succ fuel ih =>
      intro stack w t hfinds habove hnodup hfuel
      cases w with
      | object r =>
          have hnot := habove.not_mem (oneTree_found v.objs) hfinds
          have htell : ∀ {read : Read} {u : Tree}, Js.Finds v.objs (k := .value) read u →
              u.size < t.size →
              tellRead v.objs (Live.tell v.objs fuel (r :: stack)) read = .ok (some u.wire) := by
            intro read u hu hlt
            obtain ⟨w, rfl⟩ : ∃ w, read = .ok w := by
              cases u with
              | null | boolean b | number n | string s => exact ⟨_, hu⟩
              | array items =>
                  obtain ⟨r, found, hr, -⟩ := hu
                  exact ⟨_, hr⟩
              | object props =>
                  obtain ⟨r, members, hr, -⟩ := hu
                  exact ⟨_, hr⟩
            rw [hinert.tellRead_eq]
            exact ih hu (habove.cons hfinds hlt) (List.nodup_cons.mpr ⟨hnot, hnodup⟩)
              (by rw [List.length_cons]; omega)
          cases t with
          | array items =>
              obtain ⟨r', found, hr, hface, hitems⟩ := id hfinds
              obtain rfl := Value.object.inj (Except.ok.inj hr)
              have htold := tellItems_of_finds _ _ htell items hitems (by simp [Node.size])
              simp only [Live.tell, if_neg hnot, hinert.encoded_eq, hface, htold]
              rfl
          | object props =>
              obtain ⟨r', members, hr, hface, hprops⟩ := id hfinds
              obtain rfl := Value.object.inj (Except.ok.inj hr)
              have htold := tellProps_of_finds _ _ htell props hprops (by simp [Node.size])
              simp only [Live.tell, if_neg hnot, hinert.encoded_eq, hface, Members.named, htold]
              rfl
          | null | boolean b | number n | string s => exact absurd hfinds (by simp [Js.Finds])
      | _ => exact hprimitive hfinds (by simp)

theorem told_of_finds (hinert : v.Inert) {t : Tree} (hfinds : v.Finds t) :
    v.told = .ok (some t.wire) := by
  rw [Live.told, hinert.tellRead_eq]
  exact tell_of_finds hinert hfinds (fun _ hr => absurd hr List.not_mem_nil) List.nodup_nil
    (Nat.le_add_right _ _)

end

/-! ## Plain data -/

theorem inert_ofGraph (g : Graph) : (Live.ofGraph g).Inert := by
  intro o ho
  obtain ⟨o', -, rfl⟩ := List.mem_map.mp ho
  exact ⟨rfl, rfl, rfl⟩

section

variable {h : Heap}

theorem encoded_live (r : Ref) :
    ((h.objs.map Obj.live)[r]?).map LiveObject.encoded = (h.objs[r]?).map Obj.face := by
  rw [List.getElem?_map, Option.map_map]
  rfl

theorem returned_live (r : Ref) :
    ((h.objs.map Obj.live)[r]?).map LiveObject.returned = (h.objs[r]?).map Obj.face := by
  rw [List.getElem?_map, Option.map_map]
  rfl

theorem tellRead_live (tell : Value → Except ThrownValue (Option Tree)) (v : Value) :
    tellRead (h.objs.map Obj.live) tell (.ok v) = tell v := by
  have hform : jsonForm (h.objs.map Obj.live) v = .ok v := by
    cases v with
    | object r =>
        simp only [jsonForm, List.getElem?_map]
        cases h.objs[r]? <;> rfl
    | _ => rfl
  simp only [tellRead, bind, Except.bind, hform]

/-- Every object has `Object.prototype`, as those of `JSON.parse` have. -/
def Heap.Ordinary (h : Heap) : Prop :=
  ∀ proto props, Obj.plain proto props ∈ h.objs → proto = .objectPrototype

theorem Node.ordinary_alloc : ∀ {k : Kind} (t : Node k) {objs : List Obj},
    (∀ proto props, Obj.plain proto props ∈ objs → proto = .objectPrototype) →
    ∀ proto props, Obj.plain proto props ∈ (t.alloc objs).1 → proto = .objectPrototype := by
  intro k t
  induction t with
  | null | boolean b | number n | string s | noItems | noProps => exact fun h => h
  | array items ih | object props ih =>
      intro objs h proto props hmem
      rcases List.mem_append.mp hmem with hmem | hmem
      · exact ih h proto props hmem
      · simp_all
  | hole rest ih => exact fun h => ih h
  | item head rest ihHead ihRest | prop key head rest ihHead ihRest =>
      exact fun h => ihRest (ihHead h)

theorem ordinary_ofTree (t : Tree) : (Graph.ofTree t).heap.Ordinary :=
  t.ordinary_alloc fun _ _ h => absurd h List.not_mem_nil

/-- The caller finds the tree that ordinary data denotes. -/
theorem finds_of_denotes (hordinary : h.Ordinary) : ∀ {k : Kind} {s : Source k} {t : Node k},
    Denotes h s t → Finds (h.objs.map Obj.live) (Sight.ofSource s) t := by
  intro k s t
  induction t with
  | null | boolean b | number n | string s => rintro rfl; rfl
  | array items ih =>
      rintro ⟨r, vs, rfl, hr, hitems⟩
      exact ⟨r, _, rfl, by rw [returned_live, hr]; rfl, ih hitems⟩
  | object props ih =>
      rintro ⟨r, proto, ps, rfl, hr, -, hprops⟩
      obtain rfl := hordinary proto ps (List.mem_of_getElem? hr)
      exact ⟨r, ps.members, rfl, by rw [returned_live, hr]; rfl, ih hprops⟩
  | noItems | noProps => rintro rfl; rfl
  | hole rest ih =>
      rintro ⟨vs, rfl, hrest⟩
      exact ⟨_, rfl, ih hrest⟩
  | item head rest ihHead ihRest | prop key head rest ihHead ihRest =>
      rintro ⟨v, vs, rfl, hhead, hrest⟩
      exact ⟨_, _, rfl, ihHead hhead, ihRest hrest⟩

/-! ## Writing plain data -/

/-- The elements of an object written both ways: `texts` are those of the tree
among the parts, or both ends are the same error. -/
def SameParts {k : Kind} {β : Type} (texts : List β → List JsString)
    (parts : Except StringifyError (List β)) (told : Except ThrownValue (Node k)) : Prop :=
  (∃ written t, parts = .ok written ∧ told = .ok t ∧ PartsOf (texts written) t) ∨
  ∃ e : StringifyError, parts = .error e ∧ told = .error e.thrown

theorem text_wire_number (n : Number) : (Node.number n).wire.text = n.text := by
  cases n with
  | finite x =>
      by_cases hx : x.isZero = true
      · simp only [Node.wire, if_pos hx, Node.text, Number.text, Double.numeral]
        rfl
      · simp only [Node.wire, if_neg hx, Node.text]
  | infinity neg | nan => rfl

/-- A value written either way. -/
def SameText (text : Except StringifyError (Option JsString))
    (told : Except ThrownValue (Option Tree)) : Prop :=
  told.map (Option.map Node.text) = text.mapError StringifyError.thrown

theorem SameText.cases {text : Except StringifyError (Option JsString)}
    {told : Except ThrownValue (Option Tree)} (hsame : SameText text told) :
    (text = .ok none ∧ told = .ok none) ∨ (∃ t, text = .ok (some t.text) ∧ told = .ok (some t)) ∨
      ∃ e : StringifyError, text = .error e ∧ told = .error e.thrown := by
  cases text with
  | error e =>
      cases told with
      | error e' =>
          obtain rfl := Except.error.inj hsame
          exact .inr (.inr ⟨e, rfl, rfl⟩)
      | ok found => exact absurd hsame (by simp [SameText, Except.map, Except.mapError])
  | ok written =>
      cases told with
      | error e' => exact absurd hsame (by simp [SameText, Except.map, Except.mapError])
      | ok found =>
          obtain rfl := Except.ok.inj hsame
          cases found with
          | none => exact .inl ⟨rfl, rfl⟩
          | some t => exact .inr (.inl ⟨t, rfl, rfl⟩)

section Elements

variable {ser : Value → Except StringifyError (Option JsString)}
  {tell : Read → Except ThrownValue (Option Tree)}

theorem sameParts_items (hsame : ∀ v, SameText (ser v) (tell (.ok v))) :
    ∀ items : List (Option Value), SameParts id (items.mapM (Json.serializeItem ser))
      (tellItems tell (items.map fun item => item.map .ok))
  | [] => .inl ⟨[], .noItems, rfl, rfl, rfl, by simp [Node.isEmpty]⟩
  | item :: items => by
      -- the text and the tree of the item, or the error that ends both
      have hitem : (∃ t : Tree, Json.serializeItem ser item = .ok t.text ∧
          ∀ {rest}, tellItems tell (items.map fun item => item.map .ok) = rest →
            tellItems tell ((item :: items).map fun item => item.map .ok) =
              rest.map fun rest => .item t rest) ∨
          ∃ e : StringifyError, Json.serializeItem ser item = .error e ∧
            tellItems tell ((item :: items).map fun item => item.map .ok) = .error e.thrown := by
        cases item with
        | none =>
            refine .inl ⟨.null, rfl, fun hrest => ?_⟩
            simp only [List.map_cons, Option.map_none, tellItems, hrest]
            cases hr : tellItems tell (items.map fun item => item.map .ok) <;> rfl
        | some v =>
            rcases (hsame v).cases with ⟨htext, htold⟩ | ⟨t, htext, htold⟩ | ⟨e, htext, htold⟩
            · refine .inl ⟨.null, by rw [Json.serializeItem, htext]; rfl, fun hrest => ?_⟩
              simp only [List.map_cons, Option.map_some, tellItems, htold, hrest]
              rfl
            · refine .inl ⟨t, by rw [Json.serializeItem, htext]; rfl, fun hrest => ?_⟩
              simp only [List.map_cons, Option.map_some, tellItems, htold, hrest]
              rfl
            · refine .inr ⟨e, by rw [Json.serializeItem, htext]; rfl, ?_⟩
              simp only [List.map_cons, Option.map_some, tellItems, htold]
              rfl
      rcases hitem with ⟨t, hwritten, htold⟩ | ⟨e, hwritten, htold⟩
      · rcases sameParts_items hsame items with ⟨parts, rest, hparts, hrest, hof⟩ | ⟨e, hparts, hrest⟩
        · refine .inl ⟨_, _, mapM_ok_cons hwritten hparts, htold hrest, ?_, by simp [Node.isEmpty]⟩
          rw [id_eq] at hof ⊢
          rw [commaJoin_cons, hof.comma, hof.1, Node.text]
        · refine .inr ⟨e, ?_, htold hrest⟩
          rw [List.mapM_cons, hwritten, hparts]
          rfl
      · refine .inr ⟨e, ?_, htold⟩
        rw [List.mapM_cons, hwritten]
        rfl

theorem sameParts_props (hsame : ∀ v, SameText (ser v) (tell (.ok v))) :
    ∀ entries : List (JsString × Value), SameParts (List.filterMap id)
      (entries.mapM (Json.serializeProp ser)) (tellProps tell (entries.map fun e => (e.1, .ok e.2)))
  | [] => .inl ⟨[], .noProps, rfl, rfl, rfl, by simp [Node.isEmpty]⟩
  | (key, v) :: entries => by
      have ih := sameParts_props hsame entries
      rcases (hsame v).cases with ⟨htext, htold⟩ | ⟨t, htext, htold⟩ | ⟨e, htext, htold⟩
      · have hprop : Json.serializeProp ser (key, v) = .ok none := by
          rw [Json.serializeProp, htext]
          rfl
        simp only [List.map_cons, tellProps, htold]
        rcases ih with ⟨parts, rest, hparts, hrest, hof⟩ | ⟨e, hparts, hrest⟩
        · exact .inl ⟨_, rest, mapM_ok_cons hprop hparts, by rw [hrest]; rfl, hof⟩
        · refine .inr ⟨e, ?_, by rw [hrest]; rfl⟩
          rw [List.mapM_cons, hprop, hparts]
          rfl
      · have hprop : Json.serializeProp ser (key, v) =
            .ok (some (quote key ++ ch ':' :: t.text)) := by
          rw [Json.serializeProp, htext]
          rfl
        simp only [List.map_cons, tellProps, htold]
        rcases ih with ⟨parts, rest, hparts, hrest, hof⟩ | ⟨e, hparts, hrest⟩
        · refine .inl ⟨_, .prop key t rest, mapM_ok_cons hprop hparts, by rw [hrest]; rfl, ?_,
            by simp [Node.isEmpty]⟩
          rw [List.filterMap_cons_some (f := id) rfl, commaJoin_cons, hof.comma, hof.1, Node.text,
            List.append_assoc, List.cons_append]
        · refine .inr ⟨e, ?_, by rw [hrest]; rfl⟩
          rw [List.mapM_cons, hprop, hparts]
          rfl
      · refine .inr ⟨e, ?_, ?_⟩
        · rw [List.mapM_cons, Json.serializeProp, htext]
          rfl
        · simp only [List.map_cons, tellProps, htold]
          rfl

end Elements

theorem named_members (props : Properties) :
    props.members.named = props.entries.map fun e => (e.1, .ok e.2) := by
  simp only [Members.named, Properties.members, List.filterMap_map]
  exact congrFun (List.filterMap_eq_map (f := fun e : JsString × Value =>
    ((e.1, Except.ok e.2) : JsString × Read))) _

/-- Plain data is written the same in both ways, from every place in it. -/
theorem sameText_serialize : ∀ (fuel : Nat) (stack : List Ref) (v : Value),
    SameText (Json.serialize h fuel stack v) (Live.tell (h.objs.map Obj.live) fuel stack v) := by
  intro fuel
  induction fuel with
  | zero =>
      intro stack v
      cases v with
      | number n =>
          simp only [SameText, Json.serialize, Live.tell, Except.map, Option.map_some,
            text_wire_number]
          rfl
      | object r =>
          simp only [SameText, Json.serialize, Live.tell]
          split <;> rfl
      | boolean b => cases b <;> rfl
      | _ => rfl
  | succ fuel ih =>
      intro stack v
      cases v with
      | number n =>
          simp only [SameText, Json.serialize, Live.tell, Except.map, Option.map_some,
            text_wire_number]
          rfl
      | boolean b => cases b <;> rfl
      | object r =>
          simp only [SameText, Json.serialize, Live.tell, encoded_live]
          split
          · rfl
          have hsame : ∀ v : Value, SameText (Json.serialize h fuel (r :: stack) v)
              (tellRead (h.objs.map Obj.live) (Live.tell (h.objs.map Obj.live) fuel (r :: stack))
                (.ok v)) := by
            intro v
            rw [tellRead_live]
            exact ih (r :: stack) v
          cases ho : h.objs[r]? with
          | none => rfl
          | some o =>
              cases o with
              | array items =>
                  simp only [Option.map_some, Obj.face]
                  rcases sameParts_items hsame items with
                    ⟨parts, t, hparts, htold, hof⟩ | ⟨e, hparts, htold⟩
                  · rw [hparts, htold]
                    simp only [Except.map, bind, Except.bind, pure, Except.pure, Option.map_some,
                      Node.text, ← hof.1, id_eq]
                    rfl
                  · rw [hparts, htold]
                    rfl
              | plain proto props =>
                  simp only [Option.map_some, Obj.face, named_members]
                  rcases sameParts_props hsame props.entries with
                    ⟨parts, t, hparts, htold, hof⟩ | ⟨e, hparts, htold⟩
                  · rw [hparts, htold]
                    simp only [Except.map, bind, Except.bind, pure, Except.pure, Option.map_some,
                      Node.text, ← hof.1]
                    rfl
                  · rw [hparts, htold]
                    rfl
      | _ => rfl

/-- On plain data `Live.stringify` is `Json.stringify`. -/
theorem stringify_ofGraph (g : Graph) :
    (Live.ofGraph g).stringify = (Json.stringify g).mapError StringifyError.thrown := by
  have htold : (Live.ofGraph g).told =
      Live.tell (g.heap.objs.map Obj.live) g.heap.objs.length [] g.root := by
    rw [Live.told, (inert_ofGraph g).tellRead_eq]
    simp [Live.ofGraph]
  have hsame := sameText_serialize (h := g.heap) g.heap.objs.length [] g.root
  rw [Json.stringify, ← hsame, ← htold, Live.stringify]
  cases (Live.ofGraph g).told <;> rfl

end

end Benchhand.Js
