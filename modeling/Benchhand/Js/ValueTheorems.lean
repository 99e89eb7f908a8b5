/-
Benchhand.Js.ValueTheorems — facts about heaps and the trees they hold.

A value has at most one tree (`Denotes.unique`), and adding objects changes no
tree that is there (`Denotes.extend`). The objects built for a tree denote it
again (`Graph.ofTree_denotes`), provided no object of the tree has a key twice.
-/
import Benchhand.Js.Value

namespace Benchhand.Js

open Benchhand.Text

/-! ## A value has one tree -/

theorem Denotes.unique {h : Heap} : ∀ {k : Kind} {s : Source k} {t u : Node k},
    Denotes h s t → Denotes h s u → t = u := by
  intro k s t
  induction t with
  | null | boolean b | number n | string s =>
      intro u ht hu
      cases u <;> simp_all [Denotes]
  | array items ih =>
      rintro u ⟨r, vs, rfl, hr, hi⟩ hu
      cases u with
      | array items' =>
          obtain ⟨r', vs', hv, hr', hi'⟩ := hu
          obtain rfl := Value.object.inj hv
          obtain rfl := Obj.array.inj (Option.some.inj (hr.symm.trans hr'))
          rw [ih hi hi']
      | object props' =>
          obtain ⟨r', proto, ps, hv, hr', -⟩ := hu
          obtain rfl := Value.object.inj hv
          exact absurd (hr.symm.trans hr') (by simp)
      | null | boolean b | number n | string s => exact absurd hu (by simp [Denotes])
  | object props ih =>
      rintro u ⟨r, proto, ps, rfl, hr, hproto, hi⟩ hu
      cases u with
      | array items' =>
          obtain ⟨r', vs', hv, hr', -⟩ := hu
          obtain rfl := Value.object.inj hv
          exact absurd (hr.symm.trans hr') (by simp)
      | object props' =>
          obtain ⟨r', proto', ps', hv, hr', -, hi'⟩ := hu
          obtain rfl := Value.object.inj hv
          obtain ⟨-, rfl⟩ := Obj.plain.inj (Option.some.inj (hr.symm.trans hr'))
          rw [ih hi hi']
      | null | boolean b | number n | string s => exact absurd hu (by simp [Denotes])
  | noItems => intro u ht hu; cases u <;> simp_all [Denotes]
  | hole rest ih =>
      rintro u ⟨vs, rfl, ht⟩ hu
      cases u with
      | hole rest' =>
          obtain ⟨vs', hv, hu'⟩ := hu
          rw [ih ht ((List.cons.inj hv).2 ▸ hu')]
      | noItems | item head' rest' => simp [Denotes] at hu
  | item head rest ihHead ihRest =>
      rintro u ⟨v, vs, rfl, hh, ht⟩ hu
      cases u with
      | item head' rest' =>
          obtain ⟨v', vs', hv, hh', ht'⟩ := hu
          obtain ⟨rfl, rfl⟩ : v = v' ∧ vs = vs' := by simpa using hv
          rw [ihHead hh hh', ihRest ht ht']
      | noItems | hole rest' => simp [Denotes] at hu
  | noProps => intro u ht hu; cases u <;> simp_all [Denotes]
  | prop key head rest ihHead ihRest =>
      rintro u ⟨v, ps, rfl, hh, ht⟩ hu
      cases u with
      | prop key' head' rest' =>
          obtain ⟨v', ps', hv, hh', ht'⟩ := hu
          obtain ⟨⟨rfl, rfl⟩, rfl⟩ : (key = key' ∧ v = v') ∧ ps = ps' := by simpa using hv
          rw [ihHead hh hh', ihRest ht ht']
      | noProps => simp [Denotes] at hu

/-- The keys of a denoted object are those of the properties. -/
theorem Denotes.keys_eq {h : Heap} : ∀ (t : Node .props) {ps : List (JsString × Value)},
    Denotes h (k := .props) ps t → t.keys = ps.map Prod.fst
  | .noProps, _, hd => by rw [hd, Node.keys, List.map_nil]
  | .prop key head rest, _, ⟨v, ps, hps, _, hrest⟩ => by
      rw [Node.keys, keys_eq rest hrest, hps, List.map_cons]

/-- Objects of the heap have no key twice, so neither have their trees. -/
theorem Denotes.keysNodup {h : Heap} : ∀ {k : Kind} {s : Source k} {t : Node k},
    Denotes h s t → t.KeysNodup := by
  intro k s t
  induction t with
  | null | boolean b | number n | string s | noItems | noProps => intro _; trivial
  | array items ih => rintro ⟨r, vs, -, -, hi⟩; exact ih hi
  | object props ih =>
      rintro ⟨r, proto, ps, -, -, -, hi⟩
      exact ⟨keys_eq props hi ▸ ps.nodup, ih hi⟩
  | hole rest ih => rintro ⟨vs, -, hr⟩; exact ih hr
  | item head rest ihHead ihRest => rintro ⟨v, vs, -, hh, hr⟩; exact ⟨ihHead hh, ihRest hr⟩
  | prop key head rest ihHead ihRest =>
      rintro ⟨v, ps, -, hh, hr⟩; exact ⟨ihHead hh, ihRest hr⟩

/-! ## Adding objects -/

/-- Objects that are there stay. -/
def Heap.Extends (h' h : Heap) : Prop := h.objs <+: h'.objs

theorem Heap.Extends.getElem? {h h' : Heap} (he : h'.Extends h) {r : Ref} {o : Obj}
    (hr : h.objs[r]? = some o) : h'.objs[r]? = some o := by
  obtain ⟨added, hadded⟩ := he
  rw [← hadded, List.getElem?_append_left (List.getElem?_eq_some_iff.mp hr).1, hr]

/-- A tree that is there stays the tree of its value. -/
theorem Denotes.extend {h h' : Heap} (he : h'.Extends h) :
    ∀ {k : Kind} {s : Source k} {t : Node k}, Denotes h s t → Denotes h' s t := by
  intro k s t
  induction t with
  | null | boolean b | number n | string s | noItems | noProps => exact id
  | array items ih =>
      rintro ⟨r, vs, hv, hr, hi⟩
      exact ⟨r, vs, hv, he.getElem? hr, ih hi⟩
  | object props ih =>
      rintro ⟨r, proto, ps, hv, hr, hp, hi⟩
      exact ⟨r, proto, ps, hv, he.getElem? hr, hp, ih hi⟩
  | hole rest ih => rintro ⟨vs, hv, hr⟩; exact ⟨vs, hv, ih hr⟩
  | item head rest ihHead ihRest =>
      rintro ⟨v, vs, hv, hh, hr⟩; exact ⟨v, vs, hv, ihHead hh, ihRest hr⟩
  | prop key head rest ihHead ihRest =>
      rintro ⟨v, ps, hv, hh, hr⟩; exact ⟨v, ps, hv, ihHead hh, ihRest hr⟩

/-- New objects do not change what the old ones denote. -/
theorem Denotes.restrict {h h' : Heap} (he : h'.Extends h) :
    ∀ {k : Kind} {s : Source k} {t : Node k}, (∀ r ∈ Source.refs s, r < h.objs.length) →
      Denotes h' s t → Denotes h s t := by
  have hlook : ∀ {r : Ref} {o : Obj}, r < h.objs.length → h'.objs[r]? = some o →
      h.objs[r]? = some o ∧ ∀ r' ∈ o.refs, r' < h.objs.length := by
    intro r o hlt hr
    have hr' : h.objs[r]? = some o := by
      rw [List.getElem?_eq_getElem hlt, ← he.getElem? (List.getElem?_eq_getElem hlt), hr]
    exact ⟨hr', h.closed o (List.mem_of_getElem? hr')⟩
  intro k s t
  induction t with
  | null | boolean b | number n | string s | noItems | noProps => exact fun _ hd => hd
  | array items ih =>
      rintro hs ⟨r, vs, rfl, hr, hi⟩
      obtain ⟨hr, ho⟩ := hlook (hs r (by simp [Source.refs, Value.refs])) hr
      exact ⟨r, vs, rfl, hr, ih ho hi⟩
  | object props ih =>
      rintro hs ⟨r, proto, ps, rfl, hr, hp, hi⟩
      obtain ⟨hr, ho⟩ := hlook (hs r (by simp [Source.refs, Value.refs])) hr
      exact ⟨r, proto, ps, rfl, hr, hp, ih ho hi⟩
  | hole rest ih =>
      rintro hs ⟨vs, rfl, hr⟩
      exact ⟨vs, rfl, ih (by simpa [Source.refs] using hs) hr⟩
  | item head rest ihHead ihRest =>
      rintro hs ⟨v, vs, rfl, hh, hr⟩
      simp only [Source.refs, List.flatMap_cons, List.mem_append] at hs
      exact ⟨v, vs, rfl, ihHead (fun r hr => hs r (.inl hr)) hh,
        ihRest (fun r hr => hs r (.inr hr)) hr⟩
  | prop key head rest ihHead ihRest =>
      rintro hs ⟨v, ps, rfl, hh, hr⟩
      simp only [Source.refs, List.flatMap_cons, List.mem_append] at hs
      exact ⟨v, ps, rfl, ihHead (fun r hr => hs r (.inl hr)) hh,
        ihRest (fun r hr => hs r (.inr hr)) hr⟩

/-! ## The objects of a tree -/

/-- Without repeated keys, setting the entries one by one appends them. -/
theorem Properties.entries_ofList {entries : List (JsString × Value)}
    (hn : (entries.map Prod.fst).Nodup) : (Properties.ofList entries).entries = entries := by
  have hset : ∀ (key : JsString) (v : Value) (es : List (JsString × Value)),
      key ∉ es.map Prod.fst → setEntry key v es = es ++ [(key, v)] := by
    intro key v es
    induction es with
    | nil => intro _; rfl
    | cons e es ih =>
        intro hkey
        simp only [List.map_cons, List.mem_cons, not_or] at hkey
        rw [setEntry, if_neg (Ne.symm hkey.1), ih hkey.2, List.cons_append]
  have hfold : ∀ (es : List (JsString × Value)) (ps : Properties),
      ((ps.entries ++ es).map Prod.fst).Nodup →
      (es.foldl (fun ps e => ps.set e.1 e.2) ps).entries = ps.entries ++ es := by
    intro es
    induction es with
    | nil => intro ps _; exact (List.append_nil _).symm
    | cons e es ih =>
        intro ps hps
        have hnot : e.1 ∉ ps.entries.map Prod.fst := by
          rw [List.map_append, List.map_cons, List.nodup_append] at hps
          exact fun hmem => hps.2.2 e.1 hmem e.1 List.mem_cons_self rfl
        have hentries : (ps.set e.1 e.2).entries = ps.entries ++ [e] := hset e.1 e.2 _ hnot
        rw [List.append_cons, ← hentries] at hps
        rw [List.foldl_cons, ih _ hps, hentries, List.append_assoc, List.singleton_append]
  exact hfold entries .empty hn

/-- Setting entries introduces no reference of its own. -/
theorem Properties.refs_ofList {entries : List (JsString × Value)} {r : Ref}
    (hr : r ∈ Source.refs (k := .props) (Properties.ofList entries).entries) :
    r ∈ Source.refs (k := .props) entries := by
  have hset : ∀ (key : JsString) (v : Value) (es : List (JsString × Value)),
      r ∈ Source.refs (k := .props) (setEntry key v es) →
        r ∈ Source.refs (k := .props) es ∨ r ∈ v.refs := by
    intro key v es
    induction es with
    | nil => simp [setEntry, Source.refs]
    | cons e es ih =>
        simp only [setEntry, Source.refs, List.flatMap_cons, List.mem_append] at ih ⊢
        split
        · simp only [List.flatMap_cons, List.mem_append]
          tauto
        · simp only [List.flatMap_cons, List.mem_append]
          tauto
  have hfold : ∀ (es : List (JsString × Value)) (ps : Properties),
      r ∈ Source.refs (k := .props) (es.foldl (fun ps e => ps.set e.1 e.2) ps).entries →
        r ∈ Source.refs (k := .props) ps.entries ∨ r ∈ Source.refs (k := .props) es := by
    intro es
    induction es with
    | nil => intro ps h; exact .inl h
    | cons e es ih =>
        intro ps h
        simp only [Source.refs, List.flatMap_cons, List.mem_append]
        rcases ih (ps.set e.1 e.2) h with h | h
        · rcases hset e.1 e.2 ps.entries h with h | h
          · exact .inl h
          · exact .inr (.inl h)
        · exact .inr (.inr h)
  rcases hfold entries .empty hr with h | h
  · exact absurd h (by simp [Properties.empty, Source.refs])
  · exact h

/-- Every reference in the objects is to one of them. -/
def ClosedObjs (objs : List Obj) : Prop := ∀ o ∈ objs, ∀ r ∈ o.refs, r < objs.length

theorem closedObjs_push {objs : List Obj} {o : Obj} (h : ClosedObjs objs)
    (ho : ∀ r ∈ o.refs, r < objs.length) : ClosedObjs (objs ++ [o]) := by
  intro o' ho' r hr
  rw [List.length_append]
  rcases List.mem_append.mp ho' with hmem | hmem
  · exact Nat.lt_of_lt_of_le (h o' hmem r hr) (Nat.le_add_right _ _)
  · obtain rfl := List.mem_singleton.mp hmem
    exact Nat.lt_of_lt_of_le (ho r hr) (Nat.le_add_right _ _)

theorem Node.prefix_alloc : ∀ {k : Kind} (t : Node k) (objs : List Obj),
    objs <+: (t.alloc objs).1 := by
  intro k t
  induction t with
  | null | boolean b | number n | string s | noItems | noProps =>
      intro objs; exact List.prefix_rfl
  | array items ih | object props ih =>
      intro objs; exact (ih objs).trans (List.prefix_append _ _)
  | hole rest ih => intro objs; exact ih objs
  | item head rest ihHead ihRest | prop key head rest ihHead ihRest =>
      intro objs; exact (ihHead objs).trans (ihRest _)

/-- The new objects refer to new or old ones only. -/
theorem Node.closed_alloc : ∀ {k : Kind} (t : Node k) {objs : List Obj}, ClosedObjs objs →
    ClosedObjs (t.alloc objs).1 ∧
    ∀ r ∈ Source.refs (t.alloc objs).2, r < (t.alloc objs).1.length := by
  intro k t
  induction t with
  | null | boolean b | number n | string s | noItems | noProps =>
      intro objs h
      exact ⟨h, by simp [Node.alloc, Source.refs, Value.refs]⟩
  | array items ih =>
      intro objs h
      obtain ⟨hclosed, hrefs⟩ := ih h
      refine ⟨closedObjs_push hclosed hrefs, ?_⟩
      simp [Node.alloc, Source.refs, Value.refs]
  | object props ih =>
      intro objs h
      obtain ⟨hclosed, hrefs⟩ := ih h
      refine ⟨closedObjs_push hclosed fun r hr => hrefs r (Properties.refs_ofList hr), ?_⟩
      simp [Node.alloc, Source.refs, Value.refs]
  | hole rest ih =>
      intro objs h
      obtain ⟨hclosed, hrefs⟩ := ih h
      exact ⟨hclosed, by simpa [Node.alloc, Source.refs] using hrefs⟩
  | item head rest ihHead ihRest | prop key head rest ihHead ihRest =>
      intro objs h
      obtain ⟨hclosed, hrefs⟩ := ihHead h
      obtain ⟨hclosed', hrefs'⟩ := ihRest hclosed
      refine ⟨hclosed', fun r hr => ?_⟩
      rcases List.mem_append.mp hr with hr | hr
      · exact Nat.lt_of_lt_of_le (hrefs r hr) (rest.prefix_alloc _).length_le
      · exact hrefs' r hr

/-- The value `JSON.parse` builds: fresh objects for a tree. -/
def Graph.ofTree (t : Tree) : Graph :=
  have hnil : ClosedObjs [] := by simp [ClosedObjs]
  have h := Node.closed_alloc t hnil
  ⟨⟨(t.alloc []).1, h.1⟩, (t.alloc []).2, h.2⟩

/-- The new objects denote the tree they were built for. -/
theorem Node.denotes_alloc : ∀ {k : Kind} (t : Node k), t.KeysNodup →
    ∀ {objs : List Obj} {h : Heap}, (t.alloc objs).1 <+: h.objs →
      Denotes h (t.alloc objs).2 t := by
  intro k t
  induction t with
  | null | boolean b | number n | string s | noItems | noProps => intros; rfl
  | array items ih =>
      intro hn objs h hpre
      refine ⟨_, _, rfl, ?_, ih hn ((List.prefix_append _ _).trans hpre)⟩
      obtain ⟨more, hmore⟩ := hpre
      simp [← hmore, Node.alloc]
  | object props ih =>
      intro hn objs h hpre
      have hrec := ih hn.2 ((List.prefix_append _ _).trans hpre)
      have hentries : (Properties.ofList (props.alloc objs).2).entries = (props.alloc objs).2 :=
        Properties.entries_ofList (Denotes.keys_eq props hrec ▸ hn.1)
      refine ⟨(props.alloc objs).1.length, .objectPrototype, .ofList (props.alloc objs).2, rfl,
        ?_, by decide, hentries.symm ▸ hrec⟩
      obtain ⟨more, hmore⟩ := hpre
      simp [← hmore, Node.alloc]
  | hole rest ih =>
      intro hn objs h hpre
      exact ⟨_, rfl, ih hn hpre⟩
  | item head rest ihHead ihRest =>
      intro hn objs h hpre
      exact ⟨_, _, rfl, ihHead hn.1 ((rest.prefix_alloc _).trans hpre), ihRest hn.2 hpre⟩
  | prop key head rest ihHead ihRest =>
      intro hn objs h hpre
      exact ⟨_, _, rfl, ihHead hn.1 ((rest.prefix_alloc _).trans hpre), ihRest hn.2 hpre⟩

theorem Graph.ofTree_denotes {t : Tree} (hn : t.KeysNodup) : (Graph.ofTree t).Denotes t :=
  Node.denotes_alloc t hn List.prefix_rfl

end Benchhand.Js
