/-
Benchhand.Contracts.JsonValueTheorems — what isJsonValue accepts.

A value is accepted exactly when following its references ends everywhere in a
tree of JSON kinds with finite numbers (`isJsonValue_iff`). Two facts carry the
proof: a call leaves `seen` as it found it (`isJsonValue_seen`), and while a
tree is walked every object in `seen` denotes a larger tree than the value at
hand (`Above`), so no object is met twice and the fuel lasts.

Arrays are where the acceptance is wider than JSON: `every` skips the holes,
so a tree with holes is accepted too.
-/
import Benchhand.Contracts.JsonValue

namespace Benchhand.Contracts

open Benchhand.Text Benchhand.Js

/-! ## The set of objects on the way -/

theorem every_seen {p : Value → Finset Ref → Bool × Finset Ref}
    (hp : ∀ v seen, (p v seen).2 = seen) : ∀ vs seen, (every p vs seen).2 = seen
  | [], _ => rfl
  | v :: vs, seen => by
      unfold every
      dsimp only
      rw [hp v seen]
      split
      · exact every_seen hp vs seen
      · rfl

/-- What a call adds to `seen` it deletes again, whatever it returns. -/
theorem isJsonValue_seen {h : Heap} : ∀ (fuel : Nat) (v : Value) (seen : Finset Ref),
    (isJsonValue h fuel v seen).2 = seen := by
  intro fuel
  induction fuel with
  | zero =>
      intro v seen
      cases v with
      | object r => unfold isJsonValue; split <;> rfl
      | _ => rfl
  | succ fuel ih =>
      intro v seen
      cases v with
      | object r =>
          unfold isJsonValue
          split
          · rfl
          · rename_i hr
            dsimp only
            split
            · rw [every_seen ih]; exact Finset.erase_insert hr
            · split
              · exact Finset.erase_insert hr
              · rw [every_seen ih]; exact Finset.erase_insert hr
            · exact Finset.erase_insert hr
      | _ => rfl

theorem every_eq_all {p : Value → Finset Ref → Bool × Finset Ref} {seen : Finset Ref}
    (hp : ∀ v, (p v seen).2 = seen) :
    ∀ vs, (every p vs seen).1 = vs.all fun v => (p v seen).1
  | [] => rfl
  | v :: vs => by
      unfold every
      dsimp only
      rw [hp v, List.all_cons]
      cases (p v seen).1 with
      | true => simp [every_eq_all hp vs]
      | false => rfl

/-- An array: its elements that are there, each inside the array. -/
theorem isJsonValue_array {h : Heap} {r : Ref} {items : List (Option Value)}
    (hlook : h.objs[r]? = some (.array items)) {fuel : Nat} {seen : Finset Ref} (hr : r ∉ seen) :
    (isJsonValue h (fuel + 1) (.object r) seen).1
      = (items.filterMap id).all fun v => (isJsonValue h fuel v (insert r seen)).1 := by
  simp only [isJsonValue, if_neg hr, hlook, every_eq_all fun v => isJsonValue_seen fuel v _]

/-- A plain object: its values, each inside the object. -/
theorem isJsonValue_plain {h : Heap} {r : Ref} {proto : Prototype} {props : Properties}
    (hlook : h.objs[r]? = some (.plain proto props)) {fuel : Nat} {seen : Finset Ref}
    (hr : r ∉ seen) :
    (isJsonValue h (fuel + 1) (.object r) seen).1
      = (proto != .other && (props.entries.map Prod.snd).all fun v =>
          (isJsonValue h fuel v (insert r seen)).1) := by
  cases proto <;>
    simp [isJsonValue, if_neg hr, hlook, every_eq_all fun v => isJsonValue_seen fuel v _]

/-! ## Accepted values denote trees -/

/-- Elements that denote trees, holes included, denote the rest of an array. -/
theorem denotes_items {h : Heap} : ∀ vs : List (Option Value),
    (∀ v ∈ vs.filterMap id, ∃ t : Tree, Denotes h (k := .value) v t ∧ t.AllFinite) →
    ∃ items : Node .items, Denotes h (k := .items) vs items ∧ items.AllFinite
  | [], _ => ⟨.noItems, rfl, trivial⟩
  | none :: vs, hvs => by
      obtain ⟨rest, hd, hf⟩ := denotes_items vs (by simpa using hvs)
      exact ⟨.hole rest, ⟨vs, rfl, hd⟩, hf⟩
  | some v :: vs, hvs => by
      obtain ⟨rest, hd, hf⟩ := denotes_items vs fun w hw =>
        hvs w (by simp only [List.filterMap_cons, id_eq, List.mem_cons]; exact .inr hw)
      obtain ⟨head, hhead, hfhead⟩ := hvs v (by simp)
      exact ⟨.item head rest, ⟨v, vs, rfl, hhead, hd⟩, hfhead, hf⟩

theorem denotes_props {h : Heap} : ∀ ps : List (JsString × Value),
    (∀ v ∈ ps.map Prod.snd, ∃ t : Tree, Denotes h (k := .value) v t ∧ t.AllFinite) →
    ∃ props : Node .props, Denotes h (k := .props) ps props ∧ props.AllFinite
  | [], _ => ⟨.noProps, rfl, trivial⟩
  | (key, v) :: ps, hps => by
      obtain ⟨rest, hd, hf⟩ := denotes_props ps fun w hw =>
        hps w (List.mem_cons_of_mem _ hw)
      obtain ⟨head, hhead, hfhead⟩ := hps v List.mem_cons_self
      exact ⟨.prop key head rest, ⟨v, ps, rfl, hhead, hd⟩, hfhead, hf⟩

theorem denotes_of_isJsonValue {h : Heap} : ∀ {fuel : Nat} {v : Value} {seen : Finset Ref},
    (isJsonValue h fuel v seen).1 = true →
    ∃ t : Tree, Denotes h (k := .value) v t ∧ t.AllFinite := by
  intro fuel
  induction fuel with
  | zero =>
      intro v seen hv
      cases v with
      | null => exact ⟨.null, rfl, trivial⟩
      | boolean b => exact ⟨.boolean b, rfl, trivial⟩
      | number n => exact ⟨.number n, rfl, hv⟩
      | string s => exact ⟨.string s, rfl, trivial⟩
      | object r => unfold isJsonValue at hv; split at hv <;> exact absurd hv (by simp)
      | undefined | bigint n | symbol | function => exact absurd hv (by simp [isJsonValue])
  | succ fuel ih =>
      intro v seen hv
      cases v with
      | null => exact ⟨.null, rfl, trivial⟩
      | boolean b => exact ⟨.boolean b, rfl, trivial⟩
      | number n => exact ⟨.number n, rfl, hv⟩
      | string s => exact ⟨.string s, rfl, trivial⟩
      | undefined | bigint n | symbol | function => exact absurd hv (by simp [isJsonValue])
      | object r =>
          by_cases hr : r ∈ seen
          · exact absurd hv (by simp [isJsonValue, hr])
          cases hlook : h.objs[r]? with
          | none => exact absurd hv (by simp [isJsonValue, hr, hlook])
          | some o =>
              cases o with
              | array vs =>
                  rw [isJsonValue_array hlook hr, List.all_eq_true] at hv
                  obtain ⟨items, hd, hf⟩ := denotes_items vs fun v hmem => ih (hv v hmem)
                  exact ⟨.array items, ⟨r, vs, rfl, hlook, hd⟩, hf⟩
              | plain proto ps =>
                  rw [isJsonValue_plain hlook hr, Bool.and_eq_true, bne_iff_ne,
                    List.all_eq_true] at hv
                  obtain ⟨props, hd, hf⟩ := denotes_props ps.entries fun v hmem => ih (hv.2 v hmem)
                  exact ⟨.object props, ⟨r, proto, ps, rfl, hlook, hv.1, hd⟩, hf⟩

/-! ## Trees are accepted -/

/-- The elements of an array denote smaller trees. -/
theorem exists_denotes_of_mem_items {h : Heap} : ∀ {vs : List (Option Value)}
    (items : Node .items), Denotes h (k := .items) vs items → items.AllFinite →
    ∀ v ∈ vs.filterMap id, ∃ t : Tree, Denotes h (k := .value) v t ∧ t.AllFinite ∧
      t.size < items.size
  | _, .noItems, hd, _, v, hv => by rw [hd] at hv; exact absurd hv List.not_mem_nil
  | _, .hole rest, ⟨vs, hvs, hd⟩, hf, v, hv => by
      rw [hvs] at hv
      obtain ⟨t, ht, hft, hlt⟩ := exists_denotes_of_mem_items rest hd hf v (by simpa using hv)
      exact ⟨t, ht, hft, by simp only [Node.size]; omega⟩
  | _, .item head rest, ⟨w, vs, hvs, hhead, hd⟩, hf, v, hv => by
      rw [hvs, List.filterMap_cons_some (f := id) rfl, List.mem_cons] at hv
      rcases hv with rfl | hv
      · exact ⟨head, hhead, hf.1, by simp only [Node.size]; omega⟩
      · obtain ⟨t, ht, hft, hlt⟩ := exists_denotes_of_mem_items rest hd hf.2 v hv
        exact ⟨t, ht, hft, by simp only [Node.size]; omega⟩

theorem exists_denotes_of_mem_props {h : Heap} : ∀ {ps : List (JsString × Value)}
    (props : Node .props), Denotes h (k := .props) ps props → props.AllFinite →
    ∀ v ∈ ps.map Prod.snd, ∃ t : Tree, Denotes h (k := .value) v t ∧ t.AllFinite ∧
      t.size < props.size
  | _, .noProps, hd, _, v, hv => by rw [hd] at hv; exact absurd hv List.not_mem_nil
  | _, .prop key head rest, ⟨w, ps, hps, hhead, hd⟩, hf, v, hv => by
      rw [hps, List.map_cons, List.mem_cons] at hv
      rcases hv with rfl | hv
      · exact ⟨head, hhead, hf.1, by simp only [Node.size]; omega⟩
      · obtain ⟨t, ht, hft, hlt⟩ := exists_denotes_of_mem_props rest hd hf.2 v hv
        exact ⟨t, ht, hft, by simp only [Node.size]; omega⟩

/-- Different places of the heap outside `seen` are what the fuel counts. -/
theorem card_insert_le {h : Heap} {size : Nat} {seen : Finset Ref} {r : Ref} {t : Tree}
    (habove : Above h.treeAt t.size seen.toList) (hd : Denotes h (k := .value) (.object r) t)
    (hsize : size < t.size) :
    Above h.treeAt size (insert r seen).toList ∧ (insert r seen).card = seen.card + 1 ∧
      seen.card + 1 ≤ h.objs.length := by
  have hnot : r ∉ seen := fun hmem => habove.not_mem h.oneTree hd (Finset.mem_toList.mpr hmem)
  have hcard := Finset.card_insert_of_notMem hnot
  have habove' : Above h.treeAt size (insert r seen).toList := fun r' hr' =>
    (habove.cons hd hsize) r' (by simpa using hr')
  refine ⟨habove', hcard, ?_⟩
  have hlen := length_le_of_nodup (Finset.nodup_toList _) (habove'.lt_length h.oneTree)
  rwa [Finset.length_toList, hcard] at hlen

theorem isJsonValue_of_denotes {h : Heap} : ∀ {fuel : Nat} {v : Value} {t : Tree}
    {seen : Finset Ref}, Denotes h (k := .value) v t → t.AllFinite →
    Above h.treeAt t.size seen.toList → h.objs.length ≤ fuel + seen.card →
    (isJsonValue h fuel v seen).1 = true := by
  intro fuel
  induction fuel with
  | zero =>
      intro v t seen hd hf habove hfuel
      cases t with
      | null | boolean b | number n | string s => rw [hd]; first | rfl | exact hf
      | array items =>
          obtain ⟨r, vs, rfl, -⟩ := id hd
          have := (card_insert_le habove hd (Nat.lt_succ_self _)).2.2
          omega
      | object props =>
          obtain ⟨r, proto, ps, rfl, -⟩ := id hd
          have := (card_insert_le habove hd (Nat.lt_succ_self _)).2.2
          omega
  | succ fuel ih =>
      intro v t seen hd hf habove hfuel
      cases t with
      | null | boolean b | number n | string s => rw [hd]; first | rfl | exact hf
      | array items =>
          obtain ⟨r, vs, rfl, hlook, hitems⟩ := id hd
          have hnot : r ∉ seen := fun hmem => habove.not_mem h.oneTree hd (Finset.mem_toList.mpr hmem)
          rw [isJsonValue_array hlook hnot, List.all_eq_true]
          intro v hv
          obtain ⟨t, ht, hft, hlt⟩ := exists_denotes_of_mem_items items hitems hf v hv
          obtain ⟨habove', hcard, -⟩ := card_insert_le habove hd (hlt.trans (Nat.lt_succ_self _))
          exact ih ht hft habove' (by omega)
      | object props =>
          obtain ⟨r, proto, ps, rfl, hlook, hproto, hprops⟩ := id hd
          have hnot : r ∉ seen := fun hmem => habove.not_mem h.oneTree hd (Finset.mem_toList.mpr hmem)
          rw [isJsonValue_plain hlook hnot, Bool.and_eq_true, bne_iff_ne, List.all_eq_true]
          refine ⟨hproto, fun v hv => ?_⟩
          obtain ⟨t, ht, hft, hlt⟩ := exists_denotes_of_mem_props props hprops hf v hv
          obtain ⟨habove', hcard, -⟩ := card_insert_le habove hd (hlt.trans (Nat.lt_succ_self _))
          exact ih ht hft habove' (by omega)

/-- Accepted: the references end everywhere, in JSON kinds and finite numbers. -/
theorem isJsonValue_iff (g : Graph) :
    Graph.isJsonValue g = true ↔ ∃ t, g.Denotes t ∧ t.AllFinite := by
  constructor
  · exact denotes_of_isJsonValue
  · rintro ⟨t, hd, hf⟩
    exact isJsonValue_of_denotes hd hf (fun r hr => absurd hr (by simp)) (Nat.le_add_right _ _)

/-! ## The result envelope -/

theorem envelope_extends (value : Graph) : (envelope value).heap.Extends value.heap :=
  List.prefix_append _ _

theorem envelope_lookup (value : Graph) :
    (envelope value).heap.objs[value.heap.objs.length]? = some (envelopeObj value.root) := by
  simp [envelope]

/-- The envelope is a JSON value exactly when the result is. -/
theorem isJsonValue_envelope (value : Graph) :
    Graph.isJsonValue (envelope value) = true ↔ ∃ t, value.Denotes t ∧ t.AllFinite := by
  rw [isJsonValue_iff]
  constructor
  · rintro ⟨t, hd, hf⟩
    cases t with
    | object props =>
        obtain ⟨r, proto, ps, hv, hlook, -, hprops⟩ := hd
        obtain rfl := Value.object.inj hv
        rw [envelope_lookup] at hlook
        obtain ⟨-, rfl⟩ := Obj.plain.inj (Option.some.inj hlook)
        -- the second property is the result
        obtain ⟨t, ht, hft, -⟩ := exists_denotes_of_mem_props props hprops hf value.root
          (by simp [envelopeProps])
        exact ⟨t, ht.restrict (envelope_extends value) value.closed, hft⟩
    | array items =>
        obtain ⟨r, vs, hv, hlook, -⟩ := hd
        obtain rfl := Value.object.inj hv
        rw [envelope_lookup] at hlook
        exact absurd hlook (by simp [envelopeObj])
    | null | boolean b | number n | string s => exact absurd hd (by simp [Graph.Denotes, Denotes, envelope])
  · rintro ⟨t, hd, hf⟩
    refine ⟨.object (.prop (js "ok") (.boolean true) (.prop (js "result") t .noProps)),
      ⟨_, _, _, rfl, envelope_lookup value, by decide, ?_⟩, trivial, hf, trivial⟩
    exact ⟨_, _, rfl, rfl, _, _, rfl, hd.extend (envelope_extends value), rfl⟩

theorem lookup_result (value : Graph) :
    (envelope value).heap.property (envelope value).root (js "result") = value.root := by
  have hroot : (envelope value).root = .object value.heap.objs.length := rfl
  have hne : (js "result" == js "ok") = false := by decide
  simp [Heap.property, hroot, envelope_lookup, envelopeObj, envelopeProps, List.lookup_cons, hne]

theorem check_envelopeProps (result : Value) :
    ResultEnvelopeSchema.checkProps (envelopeProps result) = true := by
  have h1 : (js "result" == js "ok") = false := by decide
  have h2 : (js "requestId" == js "ok") = false := by decide
  have h3 : (js "requestId" == js "result") = false := by decide
  simp [ResultEnvelopeSchema.checkProps, envelopeProps, List.lookup_cons, h1, h2, h3]

theorem check_envelope (value : Graph) : ResultEnvelopeSchema.check (envelope value) = true := by
  have hroot : (envelope value).root = .object value.heap.objs.length := rfl
  simp only [ResultEnvelopeSchema.check, hroot, envelope_lookup, envelopeObj, check_envelopeProps]

/-- Either the value itself comes back or the one error. -/
theorem wireResult_cases (value : Graph) :
    ((∃ t, value.Denotes t ∧ t.AllFinite) ∧
      wireResult value = .ok (property (envelope value) "result")) ∨
    ((¬ ∃ t, value.Denotes t ∧ t.AllFinite) ∧
      wireResult value = .error (.typeError (js "invalid " ++ js "result envelope"))) := by
  by_cases h : ∃ t, value.Denotes t ∧ t.AllFinite
  · refine .inl ⟨h, ?_⟩
    simp [wireResult, parseResultEnvelope, parseSchema, (isJsonValue_envelope value).mpr h,
      check_envelope, Except.map]
  · have hnot : Graph.isJsonValue (envelope value) = false := by
      rwa [Bool.eq_false_iff, ne_eq, isJsonValue_envelope]
    exact .inr ⟨h, by simp [wireResult, parseResultEnvelope, parseSchema, hnot, Except.map]⟩

/-- The value that comes back denotes the same tree. -/
theorem denotes_property_envelope {value : Graph} {t : Tree} (hd : value.Denotes t) :
    (property (envelope value) "result").Denotes t := by
  have hroot : (property (envelope value) "result").root = value.root := lookup_result value
  rw [Graph.Denotes, hroot]
  exact hd.extend (envelope_extends value)

theorem wireResult_denotes {value wire : Graph} (h : wireResult value = .ok wire) :
    ∃ t, value.Denotes t ∧ t.AllFinite ∧ wire.Denotes t := by
  rcases wireResult_cases value with ⟨⟨t, hd, hf⟩, hok⟩ | ⟨-, herr⟩
  · obtain rfl := Except.ok.inj (hok.symm.trans h)
    exact ⟨t, hd, hf, denotes_property_envelope hd⟩
  · exact absurd (herr.symm.trans h) (by simp)

/-- A value with a finite tree is accepted, and what comes back denotes it. -/
theorem wireResult_of_denotes {value : Graph} {t : Tree} (hd : value.Denotes t)
    (hf : t.AllFinite) : ∃ wire, wireResult value = .ok wire ∧ wire.Denotes t := by
  rcases wireResult_cases value with ⟨-, hok⟩ | ⟨hnot, -⟩
  · exact ⟨_, hok, denotes_property_envelope hd⟩
  · exact absurd ⟨t, hd, hf⟩ hnot

end Benchhand.Contracts
