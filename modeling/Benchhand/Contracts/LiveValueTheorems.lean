/-
Benchhand.Contracts.LiveValueTheorems — what the check on a live value says.

A value that `Live.wireResult` accepts comes back itself. On plain data the
check is that of `Graph.isJsonValue` (`isJsonValue_ofGraph`,
`wireResult_ofGraph`). An accepted value that shows everyone the same is written
by `JSON.stringify` (`told_of_accepted`), and every number that the caller finds
in it is finite (`allFinite_of_accepted`).
-/
import Benchhand.Contracts.LiveValue

namespace Benchhand.Contracts

open Benchhand.Text Benchhand.Js

theorem wireResult_eq {value wire : Live} (h : Live.wireResult value = .ok wire) : wire = value := by
  obtain ⟨valid, -, h⟩ := bind_eq_ok h
  split at h
  · exact absurd h (by simp)
  · exact (Except.ok.inj h).symm

theorem wireResult_eq_ok_iff {value : Live} : Live.wireResult value = .ok value ↔
    Live.isJsonValue (Live.envelope value) = .ok true := by
  unfold Live.wireResult
  cases Live.isJsonValue (Live.envelope value) with
  | error thrown => simp [bind, Except.bind]
  | ok valid => cases valid <;> simp [bind, Except.bind, pure, Except.pure, check_envelopeProps]

/-! ## Plain data -/

theorem everyRead_ok {p : Value → Finset Ref → Except ThrownValue (Bool × Finset Ref)}
    {q : Value → Finset Ref → Bool × Finset Ref} (hp : ∀ v seen, p v seen = .ok (q v seen)) :
    ∀ (vs : List Value) (seen : Finset Ref), everyRead p (vs.map .ok) seen = .ok (every q vs seen)
  | [], seen => rfl
  | v :: vs, seen => by
      simp only [List.map_cons, everyRead, bind, Except.bind, hp, every]
      cases hq : q v seen with
      | mk valid seen' =>
          cases valid with
          | true => exact everyRead_ok hp vs seen'
          | false => rfl

theorem checked_live {h : Heap} (r : Ref) :
    ((h.objs.map Obj.live)[r]?).map LiveObject.checked = (h.objs[r]?).map Obj.face := by
  rw [List.getElem?_map, Option.map_map]
  rfl

theorem liveJsonValue_live {h : Heap} : ∀ (fuel : Nat) (v : Value) (seen : Finset Ref),
    liveJsonValue (h.objs.map Obj.live) fuel v seen = .ok (isJsonValue h fuel v seen) := by
  intro fuel
  induction fuel with
  | zero =>
      intro v seen
      cases v with
      | object r =>
          simp only [liveJsonValue, isJsonValue]
          split <;> rfl
      | _ => rfl
  | succ fuel ih =>
      intro v seen
      cases v with
      | object r =>
          simp only [liveJsonValue, isJsonValue, checked_live]
          split
          · rfl
          cases h.objs[r]? with
          | none => rfl
          | some o =>
              cases o with
              | array items =>
                  have hitems : (items.map fun item => item.map (Except.ok : Value → Read)).filterMap
                      id = (items.filterMap id).map .ok := by
                    rw [List.filterMap_map, List.map_filterMap]
                    congr 1
                  simp only [Option.map_some, Obj.face, hitems, everyRead_ok ih]
                  rfl
              | plain proto props =>
                  have hvalues : (props.entries.map fun e => (e.1, (.ok e.2 : Read))).mapM Prod.snd =
                      (.ok (props.entries.map Prod.snd) : Except ThrownValue (List Value)) := by
                    induction props.entries with
                    | nil => rfl
                    | cons e entries ih => exact mapM_ok_cons rfl ih
                  simp only [Option.map_some, Obj.face, named_members, hvalues]
                  split
                  · rfl
                  · simp only [bind, Except.bind, everyRead_ok ih]
                    rfl
      | _ => rfl

/-- On plain data the check is that of `Graph.isJsonValue`. -/
theorem isJsonValue_ofGraph (g : Graph) :
    Live.isJsonValue (Live.ofGraph g) = .ok (Graph.isJsonValue g) := by
  have hlength : (Live.ofGraph g).objs.length = g.heap.objs.length := List.length_map _
  rw [Live.isJsonValue, hlength]
  exact congrArg (Except.map Prod.fst) (liveJsonValue_live g.heap.objs.length g.root ∅)

theorem envelope_ofGraph (g : Graph) :
    Live.envelope (Live.ofGraph g) = Live.ofGraph (envelope g) := by
  simp [Live.envelope, Live.ofGraph, envelope]

/-- Plain data is accepted as a live value when it is as a graph. -/
theorem wireResult_ofGraph {g wire : Graph} (h : wireResult g = .ok wire) :
    Live.wireResult (Live.ofGraph g) = .ok (Live.ofGraph g) := by
  obtain ⟨t, hd, hf, -⟩ := wireResult_denotes h
  rw [wireResult_eq_ok_iff, envelope_ofGraph, isJsonValue_ofGraph,
    (isJsonValue_envelope g).mpr ⟨t, hd, hf⟩]

/-- The envelope is an ordinary object. -/
theorem ordinary_wireResult {g wire : Graph} (hordinary : g.heap.Ordinary)
    (h : wireResult g = .ok wire) : wire.heap.Ordinary := by
  have hwire : wire = property (envelope g) "result" := by
    rcases wireResult_cases g with ⟨-, hok⟩ | ⟨-, herr⟩
    · exact Except.ok.inj (h.symm.trans hok)
    · exact absurd (h.symm.trans herr) (by simp)
  rw [hwire]
  intro proto props hmem
  rcases List.mem_append.mp hmem with hmem | hmem
  · exact hordinary proto props hmem
  · exact (Obj.plain.inj (List.mem_singleton.mp hmem)).1

/-! ## What is accepted -/

section

variable {p : Value → Finset Ref → Except ThrownValue (Bool × Finset Ref)}

/-- The first item is checked, and the rest if it passes. -/
theorem everyRead_cons {v : Value} {reads : List Read} {seen : Finset Ref}
    {out : Bool × Finset Ref} (h : everyRead p (.ok v :: reads) seen = .ok out) :
    ∃ valid s, p v seen = .ok (valid, s) ∧
      (if valid = true then everyRead p reads s else .ok (false, s)) = .ok out := by
  rw [everyRead] at h
  obtain ⟨w, hw, h⟩ := bind_eq_ok h
  obtain rfl := Except.ok.inj hw
  obtain ⟨⟨valid, s⟩, hfirst, h⟩ := bind_eq_ok h
  exact ⟨valid, s, hfirst, h⟩

theorem everyRead_seen (hp : ∀ {v seen valid seen'}, p v seen = .ok (valid, seen') → seen' = seen) :
    ∀ {reads : List Read} {seen seen' : Finset Ref} {valid : Bool},
      everyRead p reads seen = .ok (valid, seen') → seen' = seen
  | [], _, _, _, h => (Prod.mk.inj (Except.ok.inj h)).2.symm
  | .error thrown :: reads, _, _, _, h => by cases h
  | .ok v :: reads, seen, seen', valid, h => by
      obtain ⟨first, s, hfirst, h⟩ := everyRead_cons h
      obtain rfl := hp hfirst
      cases first with
      | false => exact (Prod.mk.inj (Except.ok.inj h)).2.symm
      | true => exact everyRead_seen hp h

/-- `every` is true when every item is read and passes, inside the same
objects. -/
theorem accepted_of_everyRead
    (hp : ∀ {v seen valid seen'}, p v seen = .ok (valid, seen') → seen' = seen) :
    ∀ {reads : List Read} {seen seen' : Finset Ref}, everyRead p reads seen = .ok (true, seen') →
      ∀ read ∈ reads, ∃ v, read = .ok v ∧ p v seen = .ok (true, seen)
  | [], _, _, _ => fun read hread => absurd hread List.not_mem_nil
  | .error thrown :: reads, seen, seen', h => by cases h
  | .ok v :: reads, seen, seen', h => by
      obtain ⟨valid, s, hfirst, h⟩ := everyRead_cons h
      obtain rfl := hp hfirst
      cases valid with
      | false => exact absurd h (by simp)
      | true =>
          intro read hread
          rcases List.mem_cons.mp hread with rfl | hread
          · exact ⟨v, rfl, hfirst⟩
          · exact accepted_of_everyRead hp h read hread

end

/-- Whatever an object adds to `seen` it takes out again. -/
theorem liveJsonValue_seen {objs : List LiveObject} : ∀ {fuel : Nat} {v : Value}
    {seen seen' : Finset Ref} {valid : Bool},
    liveJsonValue objs fuel v seen = .ok (valid, seen') → seen' = seen := by
  intro fuel
  induction fuel with
  | zero =>
      intro v seen seen' valid h
      cases v with
      | object r =>
          simp only [liveJsonValue] at h
          split at h <;> exact (Prod.mk.inj (Except.ok.inj h)).2.symm
      | _ => exact (Prod.mk.inj (Except.ok.inj h)).2.symm
  | succ fuel ih =>
      intro v seen seen' valid h
      cases v with
      | object r =>
          simp only [liveJsonValue] at h
          split at h
          · exact (Prod.mk.inj (Except.ok.inj h)).2.symm
          rename_i hr
          have herase : (insert r seen).erase r = seen := Finset.erase_insert hr
          split at h
          · obtain ⟨⟨valid', s⟩, hevery, h⟩ := bind_eq_ok h
            obtain ⟨-, rfl⟩ := Prod.mk.inj (Except.ok.inj h)
            rw [everyRead_seen ih hevery, herase]
          · split at h
            · rw [← (Prod.mk.inj (Except.ok.inj h)).2, herase]
            · obtain ⟨values, -, h⟩ := bind_eq_ok h
              obtain ⟨⟨valid', s⟩, hevery, h⟩ := bind_eq_ok h
              obtain ⟨-, rfl⟩ := Prod.mk.inj (Except.ok.inj h)
              rw [everyRead_seen ih hevery, herase]
          · exact absurd h (by simp)
          · rw [← (Prod.mk.inj (Except.ok.inj h)).2, herase]
      | _ => exact (Prod.mk.inj (Except.ok.inj h)).2.symm

theorem mapM_snd_ok {reads : List (JsString × Read)} : ∀ {values : List Value},
    reads.mapM Prod.snd = (.ok values : Except ThrownValue (List Value)) →
    ∀ e ∈ reads, ∃ v ∈ values, e.2 = .ok v := by
  induction reads with
  | nil => exact fun _ e he => absurd he List.not_mem_nil
  | cons first reads ih =>
      intro values h
      rw [List.mapM_cons] at h
      obtain ⟨v, hv, h⟩ := bind_eq_ok h
      obtain ⟨vs, hvs, h⟩ := bind_eq_ok h
      obtain rfl := Except.ok.inj h
      intro e he
      rcases List.mem_cons.mp he with rfl | he
      · exact ⟨v, List.mem_cons_self, hv⟩
      · obtain ⟨w, hw, hread⟩ := ih hvs e he
        exact ⟨w, List.mem_cons_of_mem _ hw, hread⟩

section

variable {objs objs' : List LiveObject}

/-- What is read passes the check, inside the objects of `seen`. -/
def ReadAccepted (objs' : List LiveObject) (fuel : Nat) (seen : Finset Ref) (read : Read) : Prop :=
  ∃ v, read = .ok v ∧ liveJsonValue objs' fuel v seen = .ok (true, seen)

theorem accepted_items {fuel : Nat} {r : Ref} {seen : Finset Ref} {plain : Bool}
    {items : List (Option Read)} {more : Members}
    (hface : (objs'[r]?).map LiveObject.checked = some (.array plain items more))
    (h : liveJsonValue objs' (fuel + 1) (.object r) seen = .ok (true, seen)) :
    r ∉ seen ∧ ∀ read ∈ items.filterMap id, ReadAccepted objs' fuel (insert r seen) read := by
  simp only [liveJsonValue, hface] at h
  split at h
  · exact absurd h (by simp)
  rename_i hr
  obtain ⟨⟨valid, s⟩, hevery, h⟩ := bind_eq_ok h
  obtain ⟨rfl, -⟩ := Prod.mk.inj (Except.ok.inj h)
  exact ⟨hr, accepted_of_everyRead liveJsonValue_seen hevery⟩

theorem accepted_members {fuel : Nat} {r : Ref} {seen : Finset Ref} {proto : Prototype}
    {members : Members} (hface : (objs'[r]?).map LiveObject.checked = some (.object proto members))
    (h : liveJsonValue objs' (fuel + 1) (.object r) seen = .ok (true, seen)) :
    r ∉ seen ∧ ∀ e ∈ members.named, ReadAccepted objs' fuel (insert r seen) e.2 := by
  simp only [liveJsonValue, hface] at h
  split at h
  · exact absurd h (by simp)
  rename_i hr
  split at h
  · exact absurd h (by simp)
  obtain ⟨values, hvalues, h⟩ := bind_eq_ok h
  obtain ⟨⟨valid, s⟩, hevery, h⟩ := bind_eq_ok h
  obtain ⟨rfl, -⟩ := Prod.mk.inj (Except.ok.inj h)
  refine ⟨hr, fun e he => ?_⟩
  obtain ⟨v, hv, hread⟩ := mapM_snd_ok hvalues e he
  obtain ⟨w, hw, haccepted⟩ := accepted_of_everyRead liveJsonValue_seen hevery (.ok v)
    (List.mem_map_of_mem hv)
  exact ⟨w, hread.trans hw, haccepted⟩

/-! ### Its numbers -/

theorem allFinite_items {accepted : Read → Prop} (htree : ∀ {read : Read} {t : Tree},
      accepted read → Finds objs (k := .value) read t → t.AllFinite) :
    ∀ (items : Node .items) {found : List (Option Read)},
      (∀ read ∈ found.filterMap id, accepted read) →
      Finds objs (k := .items) found items → items.AllFinite
  | .noItems, _, _, _ => trivial
  | .hole rest, _, hall, ⟨found, hfound, hrest⟩ => by
      subst hfound
      refine allFinite_items htree rest ?_ hrest
      exact hall
  | .item head rest, _, hall, ⟨read, found, hfound, hhead, hrest⟩ => by
      subst hfound
      rw [List.filterMap_cons_some (f := id) rfl] at hall
      exact ⟨htree (hall read List.mem_cons_self) hhead,
        allFinite_items htree rest (fun r hr => hall r (List.mem_cons_of_mem _ hr)) hrest⟩

theorem allFinite_props {accepted : Read → Prop} (htree : ∀ {read : Read} {t : Tree},
      accepted read → Finds objs (k := .value) read t → t.AllFinite) :
    ∀ (props : Node .props) {found : List (Key × Read)},
      (∀ key read, (Key.string key, read) ∈ found → accepted read) →
      Finds objs (k := .props) found props → props.AllFinite
  | .noProps, _, _, _ => trivial
  | .prop key head rest, _, hall, ⟨read, found, hfound, hhead, hrest⟩ => by
      subst hfound
      exact ⟨htree (hall key read List.mem_cons_self) hhead,
        allFinite_props htree rest (fun k r hr => hall k r (List.mem_cons_of_mem _ hr)) hrest⟩

/-- The check goes over every number of a tree that the caller finds where the
check has looked. -/
theorem allFinite_of_readAccepted
    (hshown : ∀ (r : Ref) (face : Face), (objs[r]?).map LiveObject.returned = some face →
      (objs'[r]?).map LiveObject.checked = some face) :
    ∀ {fuel : Nat} {seen : Finset Ref} {read : Read} {t : Tree}, ReadAccepted objs' fuel seen read →
      Finds objs (k := .value) read t → t.AllFinite := by
  intro fuel
  induction fuel with
  | zero =>
      rintro seen read t ⟨v, rfl, haccepted⟩ hfinds
      cases t with
      | null | boolean b | string s => trivial
      | number n =>
          obtain rfl := Except.ok.inj hfinds
          exact (Prod.mk.inj (Except.ok.inj haccepted)).1
      | array items =>
          obtain ⟨r, found, hr, -⟩ := hfinds
          obtain rfl := Except.ok.inj hr
          simp only [liveJsonValue] at haccepted
          split at haccepted <;> exact absurd haccepted (by simp)
      | object props =>
          obtain ⟨r, members, hr, -⟩ := hfinds
          obtain rfl := Except.ok.inj hr
          simp only [liveJsonValue] at haccepted
          split at haccepted <;> exact absurd haccepted (by simp)
  | succ fuel ih =>
      rintro seen read t ⟨v, rfl, haccepted⟩ hfinds
      cases t with
      | null | boolean b | string s => trivial
      | number n =>
          obtain rfl := Except.ok.inj hfinds
          exact (Prod.mk.inj (Except.ok.inj haccepted)).1
      | array items =>
          obtain ⟨r, found, hr, hface, hitems⟩ := hfinds
          obtain rfl := Except.ok.inj hr
          obtain ⟨-, hall⟩ := accepted_items (hshown r _ hface) haccepted
          exact allFinite_items ih items hall hitems
      | object props =>
          obtain ⟨r, members, hr, hface, hprops⟩ := hfinds
          obtain rfl := Except.ok.inj hr
          obtain ⟨-, hall⟩ := accepted_members (hshown r _ hface) haccepted
          have hmembers : ∀ key read, (Key.string key, read) ∈ members.entries →
              ReadAccepted objs' fuel (insert r seen) read := fun key read hmem =>
            hall (key, read) (List.mem_filterMap.mpr ⟨_, hmem, rfl⟩)
          exact allFinite_props ih props hmembers hprops

/-! ### Its text -/

theorem tellItems_ok {tell : Read → Except ThrownValue (Option Tree)} :
    ∀ {items : List (Option Read)},
      (∀ read ∈ items.filterMap id, ∃ t, tell read = .ok (some t)) →
      ∃ written, tellItems tell items = .ok written
  | [], _ => ⟨.noItems, rfl⟩
  | none :: items, h => by
      obtain ⟨rest, hrest⟩ := @tellItems_ok tell items h
      exact ⟨.item .null rest, by rw [tellItems, hrest]; rfl⟩
  | some read :: items, h => by
      rw [List.filterMap_cons_some (f := id) rfl] at h
      obtain ⟨t, ht⟩ := h read List.mem_cons_self
      obtain ⟨rest, hrest⟩ := tellItems_ok fun r hr => h r (List.mem_cons_of_mem _ hr)
      exact ⟨.item t rest, by rw [tellItems, ht, hrest]; rfl⟩

theorem tellProps_ok {tell : Read → Except ThrownValue (Option Tree)} :
    ∀ {members : List (JsString × Read)},
      (∀ e ∈ members, ∃ t, tell e.2 = .ok (some t)) →
      ∃ written, tellProps tell members = .ok written
  | [], _ => ⟨.noProps, rfl⟩
  | (key, read) :: members, h => by
      obtain ⟨t, ht⟩ := h (key, read) List.mem_cons_self
      obtain ⟨rest, hrest⟩ := tellProps_ok fun e he => h e (List.mem_cons_of_mem _ he)
      exact ⟨.prop key t rest, by rw [tellProps, ht, hrest]; rfl⟩

end

theorem mem_refs_items {plain : Bool} {items : List (Option Read)} {more : Members} {v : Value}
    (hv : .ok v ∈ items.filterMap id) {r : Ref} (hr : r ∈ v.refs) :
    r ∈ (Face.array plain items more).refs := by
  obtain ⟨item, hitem, hid⟩ := List.mem_filterMap.mp hv
  obtain rfl : item = some (.ok v) := hid
  exact List.mem_append_left _ (List.mem_flatMap.mpr ⟨_, hitem, hr⟩)

theorem mem_refs_members {proto : Prototype} {members : Members} {key : JsString} {v : Value}
    (hv : (key, .ok v) ∈ members.named) {r : Ref} (hr : r ∈ v.refs) :
    r ∈ (Face.object proto members).refs := by
  obtain ⟨⟨key', read⟩, hentry, hname⟩ := List.mem_filterMap.mp hv
  obtain ⟨name, -, hpair⟩ := Option.map_eq_some_iff.mp hname
  obtain rfl : read = .ok v := (Prod.mk.inj hpair).2
  exact List.mem_flatMap.mpr ⟨_, hentry, hr⟩

/-- Of a value that shows every reader the same, what the check has accepted is
written. The objects on the stack are in `seen`, so none of them is met. -/
theorem tell_of_accepted {v : Live} (hinert : v.Inert) {objs' : List LiveObject}
    (hshown : ∀ (r : Ref) (o : LiveObject), v.objs[r]? = some o →
      (objs'[r]?).map LiveObject.checked = some o.encoded) :
    ∀ {fuel : Nat} {w : Value} {seen : Finset Ref} {stack : List Ref},
      liveJsonValue objs' fuel w seen = .ok (true, seen) → (∀ r ∈ stack, r ∈ seen) →
      (∀ r ∈ w.refs, r < v.objs.length) → ∃ t, Live.tell v.objs fuel stack w = .ok (some t) := by
  intro fuel
  induction fuel with
  | zero =>
      intro w seen stack haccepted hstack hrefs
      cases w with
      | null | boolean b | number n | string s => exact ⟨_, rfl⟩
      | undefined | bigint n | symbol | function =>
          exact absurd haccepted (by simp [liveJsonValue])
      | object r =>
          simp only [liveJsonValue] at haccepted
          split at haccepted <;> exact absurd haccepted (by simp)
  | succ fuel ih =>
      intro w seen stack haccepted hstack hrefs
      cases w with
      | null | boolean b | number n | string s => exact ⟨_, rfl⟩
      | undefined | bigint n | symbol | function =>
          exact absurd haccepted (by simp [liveJsonValue])
      | object r =>
          have hlt : r < v.objs.length := hrefs r (by simp [Value.refs])
          obtain ⟨o, ho⟩ : ∃ o, v.objs[r]? = some o := ⟨_, List.getElem?_eq_getElem hlt⟩
          have hface := hshown r o ho
          have hmem := List.mem_of_getElem? ho
          have hclosed : ∀ r' ∈ o.encoded.refs, r' < v.objs.length := fun r' hr' =>
            v.closed o hmem r' (by simp [LiveObject.refs, hr'])
          have hread : ∀ {read : Read}, ReadAccepted objs' fuel (insert r seen) read →
              (∀ w, read = .ok w → ∀ r' ∈ w.refs, r' ∈ o.encoded.refs) → r ∉ seen →
              ∃ t, tellRead v.objs (Live.tell v.objs fuel (r :: stack)) read = .ok (some t) := by
            rintro read ⟨w, rfl, haccepted⟩ hsub hr
            rw [hinert.tellRead_eq]
            refine ih haccepted (fun r' hr' => ?_) fun r' hr' => hclosed r' (hsub w rfl r' hr')
            rcases List.mem_cons.mp hr' with rfl | hr'
            · exact Finset.mem_insert_self _ _
            · exact Finset.mem_insert_of_mem (hstack r' hr')
          cases hencoded : o.encoded with
          | throws thrown =>
              rw [hencoded] at hface
              simp only [liveJsonValue, hface] at haccepted
              split at haccepted <;> exact absurd haccepted (by simp)
          | array plain items more =>
              rw [hencoded] at hface hread
              obtain ⟨hr, hall⟩ := accepted_items hface haccepted
              obtain ⟨written, hwritten⟩ := tellItems_ok fun read hmem =>
                hread (hall read hmem) (fun w hw r' hr' => mem_refs_items (hw ▸ hmem) hr') hr
              refine ⟨.array written, ?_⟩
              simp only [Live.tell, if_neg (fun h => hr (hstack r h)), ho, Option.map_some, hencoded,
                hwritten]
              rfl
          | object proto members =>
              rw [hencoded] at hface hread
              obtain ⟨hr, hall⟩ := accepted_members hface haccepted
              obtain ⟨written, hwritten⟩ := tellProps_ok fun e hmem =>
                hread (hall e hmem) (fun w hw r' hr' => mem_refs_members
                  (show (e.1, .ok w) ∈ members.named by rw [← hw]; exact hmem) hr') hr
              refine ⟨.object written, ?_⟩
              simp only [Live.tell, if_neg (fun h => hr (hstack r h)), ho, Option.map_some, hencoded,
                hwritten]
              rfl

/-! ## The result of an accepted envelope -/

/-- In an accepted envelope the check has accepted the result. -/
theorem result_accepted {value wire : Live} (haccepted : Live.wireResult value = .ok wire) :
    ∃ seen, ReadAccepted (Live.envelope value).objs value.objs.length seen (.ok value.root) := by
  obtain rfl := wireResult_eq haccepted
  rw [wireResult_eq_ok_iff, Live.isJsonValue] at haccepted
  cases hwalk : liveJsonValue (Live.envelope wire).objs (Live.envelope wire).objs.length
      (Live.envelope wire).root ∅ with
  | error thrown => rw [hwalk] at haccepted; exact absurd haccepted (by simp [Except.map])
  | ok out =>
      obtain ⟨valid, seen⟩ := out
      rw [hwalk] at haccepted
      obtain rfl : valid = true := Except.ok.inj haccepted
      obtain rfl := liveJsonValue_seen hwalk
      have hface : ((Live.envelope wire).objs[wire.objs.length]?).map LiveObject.checked =
          some (.object .objectPrototype (envelopeProps wire.root).members) := by
        simp [Live.envelope, Obj.live, Obj.face, envelopeObj]
      have hlength : (Live.envelope wire).objs.length = wire.objs.length + 1 := by
        simp [Live.envelope]
      rw [hlength] at hwalk
      obtain ⟨-, hall⟩ := accepted_members hface hwalk
      have hresult := hall (js "result", .ok wire.root) (by
        rw [named_members]
        simp [envelopeProps])
      exact ⟨_, hresult⟩

section

variable {value wire : Live} (hinert : value.Inert) (haccepted : Live.wireResult value = .ok wire)

include hinert

theorem envelope_shown (r : Ref) (o : LiveObject) (ho : value.objs[r]? = some o) :
    ((Live.envelope value).objs[r]?).map LiveObject.checked = some o.returned := by
  rw [Live.envelope, List.getElem?_append_left (List.getElem?_eq_some_iff.mp ho).1, ho,
    Option.map_some, (hinert o (List.mem_of_getElem? ho)).1]

include haccepted

/-- In an accepted value that shows everyone the same the caller finds finite
numbers only. -/
theorem allFinite_of_accepted {t : Tree} (hfinds : value.Finds t) : t.AllFinite := by
  obtain ⟨seen, hresult⟩ := result_accepted haccepted
  refine allFinite_of_readAccepted (fun r face hface => ?_) hresult hfinds
  obtain ⟨o, ho, rfl⟩ := Option.map_eq_some_iff.mp hface
  exact envelope_shown hinert r o ho

/-- An accepted value that shows everyone the same is written. -/
theorem told_of_accepted : ∃ t, value.told = .ok (some t) := by
  obtain ⟨seen, w, hw, hresult⟩ := result_accepted haccepted
  obtain rfl := Except.ok.inj hw
  rw [Live.told, hinert.tellRead_eq]
  refine tell_of_accepted hinert (fun r o ho => ?_) hresult
    (fun r hr => absurd hr List.not_mem_nil) value.root_lt
  rw [envelope_shown hinert r o ho, (hinert o (List.mem_of_getElem? ho)).2.1]

end

end Benchhand.Contracts
