/-
Benchhand.Workspace.PorcelainTheorems — reading git's list of worktrees back.

git ends every attribute with NUL and every record with one more, so the tokens
of a listing are the lines of its records, and an attribute is read as what was
printed whatever text it has (`line_attribute`). Its attributes may come in any
order. A listing is read as its records, and one that ends at an earlier NUL as
those of them that are complete and at most a part of the next
(`parseWorktreePorcelain_listing`).
-/
import Benchhand.Workspace.System
import Mathlib.Data.List.Perm.Basic

namespace Benchhand.Workspace

open Text

/-! ## Tokens that end with a separator -/

section
variable {α β : Type}

/-- A text that ends all its tokens with a separator is split into them. -/
theorem splitOn_terminated [DecidableEq α] {separator : α} : ∀ {tokens : List (List α)},
    (∀ token ∈ tokens, separator ∉ token) →
      (tokens.flatMap fun token => token ++ [separator]).splitOn separator = tokens ++ [[]]
  | [], _ => List.splitOn_nil _
  | token :: tokens, h => by
      rw [List.flatMap_cons, List.append_assoc, List.singleton_append,
        List.splitOn_append_cons_self, List.splitOn_eq_singleton (h token List.mem_cons_self),
        splitOn_terminated fun t ht => h t (List.mem_cons_of_mem _ ht)]
      rfl

theorem terminated_eq_intercalate {separator : α} : ∀ {tokens : List (List α)}, tokens ≠ [] →
    (tokens.flatMap fun token => token ++ [separator]) =
      [separator].intercalate tokens ++ [separator]
  | [], h => absurd rfl h
  | [token], _ => by simp
  | token :: next :: tokens, _ => by
      rw [List.flatMap_cons, terminated_eq_intercalate (List.cons_ne_nil _ _),
        List.intercalate_cons_cons]
      simp

/-- A prefix of parts in a row is some of them, and the beginning of the next. -/
theorem prefix_flatMap {f : α → List β} : ∀ {l : List α} {cut : List β}, cut <+: l.flatMap f →
    ∃ before after rest, l = before ++ after ∧ cut = before.flatMap f ++ rest ∧
      (rest = [] ∨ ∃ a more, after = a :: more ∧ rest <+: f a ∧ rest ≠ [] ∧ rest ≠ f a)
  | [], cut, h => ⟨[], [], [], rfl, by simpa using h, .inl rfl⟩
  | a :: l, cut, h => by
      rw [List.flatMap_cons] at h
      obtain hshort | hlong := List.prefix_or_prefix_of_prefix h (List.prefix_append (f a) _)
      · by_cases hnil : cut = []
        · exact ⟨[], a :: l, [], rfl, hnil, .inl rfl⟩
        by_cases hwhole : cut = f a
        · exact ⟨[a], l, [], rfl, by simpa using hwhole, .inl rfl⟩
        · exact ⟨[], a :: l, cut, rfl, rfl, .inr ⟨a, l, rfl, hshort, hnil, hwhole⟩⟩
      · obtain ⟨behind, rfl⟩ := hlong
        obtain ⟨before, after, rest, rfl, rfl, hrest⟩ :=
          prefix_flatMap ((List.prefix_append_right_inj (f a)).mp h)
        exact ⟨a :: before, after, rest, rfl, by simp, hrest⟩

end

/-! ## Printing -/

/-- An attribute of a record behind its path. -/
inductive Attribute where
  | bare
  | detached
  | head (commit : JsString)
  | branch (ref : JsString)
  | locked (reason : JsString)
  | prunable (reason : JsString)

/-- A label, with a value if there is one. -/
def Attribute.line : Attribute → JsString
  | .bare => js "bare"
  | .detached => js "detached"
  | .head commit => js "HEAD " ++ commit
  | .branch ref => js "branch " ++ ref
  | .locked reason => if reason = [] then js "locked" else js "locked " ++ reason
  | .prunable reason => if reason = [] then js "prunable" else js "prunable " ++ reason

/-- A worktree as git knows it; nothing it prints has a NUL. -/
structure WorktreeRecord where
  path : JsString
  bare : Bool
  head : Option JsString
  detached : Bool
  branch : Option JsString
  locked : Option JsString
  prunable : Option JsString
  noNul : ∀ text ∈ path :: (head.toList ++ branch.toList ++ locked.toList ++ prunable.toList),
    (0 : UInt16) ∉ text

namespace WorktreeRecord

/-- The attributes that are printed, in git's order. -/
def attributes (record : WorktreeRecord) : List Attribute :=
  (if record.bare then [.bare] else []) ++ (record.head.map .head).toList ++
    (if record.detached then [.detached] else []) ++ (record.branch.map .branch).toList ++
      (record.locked.map .locked).toList ++ (record.prunable.map .prunable).toList

/-- What the program keeps of a worktree. -/
def info (record : WorktreeRecord) : GitWorktreeInfo :=
  ⟨record.path, record.head, record.branch, record.locked, record.prunable⟩

end WorktreeRecord

/-- A record with the order its attributes are printed in. -/
structure PrintedWorktree extends WorktreeRecord where
  order : List Attribute
  perm : order.Perm toWorktreeRecord.attributes

namespace PrintedWorktree

def lines (record : PrintedWorktree) : List JsString :=
  (js "worktree " ++ record.path) :: record.order.map Attribute.line

/-- The lines, each ended by NUL, and one more NUL. -/
def text (record : PrintedWorktree) : JsString :=
  (record.lines.flatMap fun line => line ++ [0]) ++ [0]

end PrintedWorktree

/-- The output of `git worktree list --porcelain -z`. -/
def listing (printed : List PrintedWorktree) : JsString := printed.flatMap PrintedWorktree.text

/-- A part of a record: its path, and some of the rest. -/
structure PartOf (part whole : GitWorktreeInfo) : Prop where
  path : part.path = whole.path
  head : part.head = none ∨ part.head = whole.head
  branch : part.branch = none ∨ part.branch = whole.branch
  lockedReason : part.lockedReason = none ∨ part.lockedReason = whole.lockedReason
  prunableReason : part.prunableReason = none ∨ part.prunableReason = whole.prunableReason

/-- What is read of a listing that ends at a NUL: the records that end there, and
at most a part of the next. -/
inductive ReadsUpTo (printed : List PrintedWorktree) (output : JsString) :
    List GitWorktreeInfo → Prop where
  | between {before after : List PrintedWorktree} (hprinted : printed = before ++ after)
      (houtput : output ++ [0] = listing before) :
      ReadsUpTo printed output (before.map fun record => record.info)
  | inside {before after : List PrintedWorktree} {record : PrintedWorktree} {cut : JsString}
      {part : GitWorktreeInfo} (hprinted : printed = before ++ record :: after)
      (houtput : output ++ [0] = listing before ++ cut) (hcut : cut <+: record.text)
      (hstarted : cut ≠ []) (hopen : cut ≠ record.text) (hpart : PartOf part record.info) :
      ReadsUpTo printed output ((before.map fun record => record.info) ++ [part])

/-! ## One token -/

theorem afterKey?_append (key : String) (s : JsString) : afterKey? key (js key ++ s) = some s := by
  rw [afterKey?, if_pos (List.isPrefixOf_iff_prefix.mpr (List.prefix_append _ _)), List.drop_left]

/-- A token that begins otherwise has another key. -/
theorem afterKey?_other {key : String} {u v : UInt16} {rest token : JsString}
    (hkey : js key = u :: rest) (hne : u ≠ v) : afterKey? key (v :: token) = none := by
  refine if_neg fun hstarts => hne ?_
  rw [hkey] at hstarts
  exact (List.cons_prefix_cons.mp (List.isPrefixOf_iff_prefix.mp hstarts)).1

/-- What an attribute changes. -/
def Attribute.apply (current : GitWorktreeInfo) : Attribute → GitWorktreeInfo
  | .bare | .detached => current
  | .head commit => { current with head := some commit }
  | .branch ref => { current with branch := some ref }
  | .locked reason => { current with lockedReason := some reason }
  | .prunable reason => { current with prunableReason := some reason }

/-- A label that a value follows is not the label alone. -/
theorem append_ne_label {label key : JsString} (h : label.length < key.length) (s : JsString) :
    key ++ s ≠ label := by
  intro heq
  have hlength := congrArg List.length heq
  rw [List.length_append] at hlength
  omega

/-- A printed attribute is read as itself. -/
theorem line_attribute (current : GitWorktreeInfo) (a : Attribute) :
    current.line a.line = a.apply current := by
  have hhead : js "HEAD " = ch 'H' :: js "EAD " := rfl
  have hbranch : js "branch " = ch 'b' :: js "ranch " := rfl
  have hlocked : js "locked " = ch 'l' :: js "ocked " := rfl
  have hprunable : js "prunable " = ch 'p' :: js "runable " := rfl
  cases a with
  | bare => rfl
  | detached => rfl
  | head commit =>
      simp only [Attribute.line, GitWorktreeInfo.line, afterKey?_append]
      rfl
  | branch ref =>
      have hother : afterKey? "HEAD " (js "branch " ++ ref) = none :=
        afterKey?_other hhead (by decide)
      simp only [Attribute.line, GitWorktreeInfo.line, hother, afterKey?_append]
      rfl
  | locked reason =>
      by_cases hreason : reason = []
      · subst hreason
        rfl
      · have hhead' : afterKey? "HEAD " (js "locked " ++ reason) = none :=
          afterKey?_other hhead (by decide)
        have hbranch' : afterKey? "branch " (js "locked " ++ reason) = none :=
          afterKey?_other hbranch (by decide)
        simp only [Attribute.line, if_neg hreason, GitWorktreeInfo.line, hhead', hbranch',
          append_ne_label (by decide : (js "locked").length < (js "locked ").length),
          if_false, afterKey?_append]
        rfl
  | prunable reason =>
      by_cases hreason : reason = []
      · subst hreason
        rfl
      · have hhead' : afterKey? "HEAD " (js "prunable " ++ reason) = none :=
          afterKey?_other hhead (by decide)
        have hbranch' : afterKey? "branch " (js "prunable " ++ reason) = none :=
          afterKey?_other hbranch (by decide)
        have hlocked' : afterKey? "locked " (js "prunable " ++ reason) = none :=
          afterKey?_other hlocked (by decide)
        simp only [Attribute.line, if_neg hreason, GitWorktreeInfo.line, hhead', hbranch', hlocked',
          append_ne_label (by decide : (js "locked").length < (js "prunable ").length),
          append_ne_label (by decide : (js "prunable").length < (js "prunable ").length),
          if_false, afterKey?_append]
        rfl

variable {done : List GitWorktreeInfo}

/-- No attribute is empty or begins like a path. -/
theorem Attribute.line_start (a : Attribute) :
    ∃ u rest, a.line = u :: rest ∧ u ≠ ch 'w' := by
  cases a with
  | bare => exact ⟨_, _, rfl, by decide⟩
  | detached => exact ⟨_, _, rfl, by decide⟩
  | head commit => exact ⟨ch 'H', _, rfl, by decide⟩
  | branch ref => exact ⟨ch 'b', _, rfl, by decide⟩
  | locked reason =>
      rw [Attribute.line]
      split
      · exact ⟨ch 'l', _, rfl, by decide⟩
      · exact ⟨ch 'l', _, rfl, by decide⟩
  | prunable reason =>
      rw [Attribute.line]
      split
      · exact ⟨ch 'p', _, rfl, by decide⟩
      · exact ⟨ch 'p', _, rfl, by decide⟩

theorem porcelainToken_attribute (current : GitWorktreeInfo) (a : Attribute) :
    porcelainToken (done, some current) a.line = (done, some (a.apply current)) := by
  obtain ⟨u, rest, hline, hne⟩ := a.line_start
  have hworktree : afterKey? "worktree " a.line = none := by
    rw [hline]
    exact @afterKey?_other "worktree " (ch 'w') u (js "orktree ") rest rfl hne.symm
  have hnil : a.line ≠ [] := by
    rw [hline]
    exact List.cons_ne_nil _ _
  rw [porcelainToken, if_neg hnil, hworktree]
  simp only [Option.map_some, line_attribute]

theorem porcelainToken_worktree (path : JsString) :
    porcelainToken (done, none) (js "worktree " ++ path) =
      (done, some ⟨path, none, none, none, none⟩) := by
  have hne : js "worktree " ++ path ≠ [] := List.cons_ne_nil _ _
  rw [porcelainToken, if_neg hne, afterKey?_append]
  simp

theorem porcelainToken_nil (state : List GitWorktreeInfo × Option GitWorktreeInfo) :
    porcelainToken state [] = (state.1 ++ state.2.toList, none) := rfl

theorem foldl_attributes (order : List Attribute) (current : GitWorktreeInfo) :
    (order.map Attribute.line).foldl porcelainToken (done, some current) =
      (done, some (order.foldl Attribute.apply current)) := by
  induction order generalizing current with
  | nil => rfl
  | cons a order ih => rw [List.map_cons, List.foldl_cons, porcelainToken_attribute, ih, List.foldl_cons]

/-! ## One record -/

theorem WorktreeRecord.mem_attributes {record : WorktreeRecord} {a : Attribute} :
    a ∈ record.attributes ↔
      match a with
      | .bare => record.bare = true
      | .detached => record.detached = true
      | .head commit => record.head = some commit
      | .branch ref => record.branch = some ref
      | .locked reason => record.locked = some reason
      | .prunable reason => record.prunable = some reason := by
  cases a <;> simp [WorktreeRecord.attributes]

/-- A record has one attribute of a kind, so their order makes no difference. -/
theorem apply_comm {record : WorktreeRecord} {a b : Attribute} (ha : a ∈ record.attributes)
    (hb : b ∈ record.attributes) (current : GitWorktreeInfo) :
    b.apply (a.apply current) = a.apply (b.apply current) := by
  rw [WorktreeRecord.mem_attributes] at ha hb
  cases a <;> cases b <;> first
    | rfl
    | rw [Option.some.inj (ha.symm.trans hb)]

/-- The path of a record, and nothing else yet. -/
def WorktreeRecord.start (record : WorktreeRecord) : GitWorktreeInfo :=
  ⟨record.path, none, none, none, none⟩

theorem WorktreeRecord.foldl_attributes_info (record : WorktreeRecord) :
    record.attributes.foldl Attribute.apply record.start = record.info := by
  obtain ⟨path, bare, head, detached, branch, locked, prunable, -⟩ := record
  cases bare <;> cases head <;> cases detached <;> cases branch <;> cases locked <;>
    cases prunable <;> rfl

variable (record : PrintedWorktree)

theorem PrintedWorktree.foldl_order :
    record.order.foldl Attribute.apply record.start = record.info := by
  rw [record.perm.foldl_eq' (fun a ha b hb current => apply_comm (record.perm.mem_iff.mp ha)
    (record.perm.mem_iff.mp hb) current)]
  exact record.foldl_attributes_info

/-- Some attributes of a record make a part of it. -/
theorem partOf_foldl {record : WorktreeRecord} : ∀ {order : List Attribute}
    {current : GitWorktreeInfo}, (∀ a ∈ order, a ∈ record.attributes) →
      PartOf current record.info → PartOf (order.foldl Attribute.apply current) record.info
  | [], _, _, h => h
  | a :: order, current, hmem, h => by
      rw [List.foldl_cons]
      refine partOf_foldl (fun b hb => hmem b (List.mem_cons_of_mem a hb)) ?_
      have ha := WorktreeRecord.mem_attributes.mp (hmem a List.mem_cons_self)
      cases a with
      | bare => exact h
      | detached => exact h
      | head commit => exact { h with head := .inr ha.symm }
      | branch ref => exact { h with branch := .inr ha.symm }
      | locked reason => exact { h with lockedReason := .inr ha.symm }
      | prunable reason => exact { h with prunableReason := .inr ha.symm }

/-- The tokens of a record: its lines, and an empty one. -/
def PrintedWorktree.tokens : List JsString := record.lines ++ [[]]

theorem PrintedWorktree.foldl_lines (order : List Attribute) :
    ((js "worktree " ++ record.path) :: order.map Attribute.line).foldl porcelainToken
        (done, none) =
      (done, some (order.foldl Attribute.apply record.start)) := by
  rw [List.foldl_cons, porcelainToken_worktree, foldl_attributes]
  rfl

/-- A record that is complete. -/
theorem PrintedWorktree.foldl_tokens :
    record.tokens.foldl porcelainToken (done, none) = (done ++ [record.info], none) := by
  rw [PrintedWorktree.tokens, List.foldl_append, PrintedWorktree.lines, record.foldl_lines,
    record.foldl_order]
  rfl

/-- A record that is cut off after its path. -/
theorem PrintedWorktree.foldl_cut {cut : List JsString} (hcut : cut <+: record.tokens)
    (hstarted : cut ≠ []) (hopen : cut ≠ record.tokens) :
    ∃ part, PartOf part record.info ∧
      cut.foldl porcelainToken (done, none) = (done, some part) := by
  obtain heq | hlines := List.prefix_concat_iff.mp hcut
  · exact absurd heq hopen
  obtain ⟨line, rest, rfl⟩ := List.exists_cons_of_ne_nil hstarted
  obtain ⟨rfl, hrest⟩ := List.cons_prefix_cons.mp hlines
  rw [List.prefix_iff_eq_take, ← List.map_take] at hrest
  rw [hrest, record.foldl_lines]
  refine ⟨_, partOf_foldl (fun a ha => record.perm.mem_iff.mp (List.mem_of_mem_take ha)) ?_, rfl⟩
  exact ⟨rfl, .inl rfl, .inl rfl, .inl rfl, .inl rfl⟩

/-! ## A listing -/

theorem foldl_listing : ∀ (printed : List PrintedWorktree) (done : List GitWorktreeInfo),
    (printed.flatMap PrintedWorktree.tokens).foldl porcelainToken (done, none) =
      (done ++ printed.map fun record => record.info, none)
  | [], done => by simp
  | record :: printed, done => by
      rw [List.flatMap_cons, List.foldl_append, record.foldl_tokens, foldl_listing printed]
      simp

theorem zero_not_mem_line {record : WorktreeRecord} {a : Attribute} (ha : a ∈ record.attributes) :
    (0 : UInt16) ∉ a.line := by
  have hnul := record.noNul
  rw [WorktreeRecord.mem_attributes] at ha
  have hlabel {label text : JsString} (hclosed : (0 : UInt16) ∉ label)
      (hvalue : (0 : UInt16) ∉ text) : (0 : UInt16) ∉ label ++ text := by
    rw [List.mem_append]
    exact not_or.mpr ⟨hclosed, hvalue⟩
  cases a with
  | bare => decide
  | detached => decide
  | head commit => exact hlabel (by decide) (hnul commit (by simp [ha]))
  | branch ref => exact hlabel (by decide) (hnul ref (by simp [ha]))
  | locked reason =>
      rw [Attribute.line]
      split
      · decide
      · exact hlabel (by decide) (hnul reason (by simp [ha]))
  | prunable reason =>
      rw [Attribute.line]
      split
      · decide
      · exact hlabel (by decide) (hnul reason (by simp [ha]))

theorem PrintedWorktree.zero_not_mem_tokens : ∀ token ∈ record.tokens, (0 : UInt16) ∉ token := by
  intro token htoken
  obtain hline | hnil := List.mem_append.mp htoken
  · obtain rfl | hattribute := List.mem_cons.mp hline
    · rw [List.mem_append]
      exact not_or.mpr ⟨by decide, record.noNul _ List.mem_cons_self⟩
    · obtain ⟨a, ha, rfl⟩ := List.mem_map.mp hattribute
      exact zero_not_mem_line (record.perm.mem_iff.mp ha)
  · rw [List.mem_singleton.mp hnil]
    exact List.not_mem_nil

theorem PrintedWorktree.text_eq :
    record.text = record.tokens.flatMap fun token => token ++ [0] := by
  rw [PrintedWorktree.text, PrintedWorktree.tokens, List.flatMap_append]
  rfl

theorem listing_eq (printed : List PrintedWorktree) : listing printed =
    (printed.flatMap PrintedWorktree.tokens).flatMap fun token => token ++ [0] := by
  rw [listing, List.flatMap_assoc]
  exact List.flatMap_congr fun record _ => record.text_eq

theorem splitOn_listing (printed : List PrintedWorktree) :
    (listing printed).splitOn 0 = printed.flatMap PrintedWorktree.tokens ++ [[]] := by
  rw [listing_eq, splitOn_terminated]
  intro token htoken
  obtain ⟨record, -, hmem⟩ := List.mem_flatMap.mp htoken
  exact record.zero_not_mem_tokens token hmem

theorem parseWorktreePorcelain_eq (output : JsString) : parseWorktreePorcelain output =
    ((output.splitOn 0).foldl porcelainToken ([], none)).1 ++
      ((output.splitOn 0).foldl porcelainToken ([], none)).2.toList := rfl

/-- One more NUL at the end makes no difference. -/
theorem parseWorktreePorcelain_terminated (output : JsString) :
    parseWorktreePorcelain (output ++ [0]) = parseWorktreePorcelain output := by
  have hsplit : (output ++ [0]).splitOn 0 = output.splitOn 0 ++ [[]] := by
    rw [List.splitOn_append_cons_self, List.splitOn_nil]
  rw [parseWorktreePorcelain_eq, parseWorktreePorcelain_eq, hsplit, List.foldl_append,
    List.foldl_cons, List.foldl_nil, porcelainToken_nil]
  simp

theorem parse_listing (printed : List PrintedWorktree) :
    parseWorktreePorcelain (listing printed) = printed.map fun record => record.info := by
  rw [parseWorktreePorcelain_eq, splitOn_listing, List.foldl_append, foldl_listing]
  simp [porcelainToken_nil]

/-- A listing that ends early ends between two tokens. -/
theorem readsUpTo {printed : List PrintedWorktree} {output rest : JsString} (h : listing printed = output ++ 0 :: rest) :
    ReadsUpTo printed output (parseWorktreePorcelain output) := by
  have htokens : output.splitOn 0 <+: printed.flatMap PrintedWorktree.tokens := by
    have hsplit := splitOn_listing printed
    rw [h, List.splitOn_append_cons_self] at hsplit
    obtain heq | hstarts := List.prefix_concat_iff.mp ⟨_, hsplit⟩
    · rw [heq] at hsplit
      exact absurd (List.append_right_eq_self.mp hsplit) (List.splitOn_ne_nil _ _)
    · exact hstarts
  have houtput : output ++ [0] = (output.splitOn 0).flatMap fun token => token ++ [0] := by
    rw [terminated_eq_intercalate (List.splitOn_ne_nil _ _), List.intercalate_splitOn]
  obtain ⟨before, after, cut, hprinted, hcut, hrest⟩ := prefix_flatMap htokens
  rw [hcut, List.flatMap_append, ← listing_eq] at houtput
  rw [parseWorktreePorcelain_eq, hcut, List.foldl_append, foldl_listing]
  obtain rfl | ⟨record, more, rfl, hstarts, hstarted, hopen⟩ := hrest
  · simpa using ReadsUpTo.between hprinted (by simpa using houtput)
  · obtain ⟨part, hpart, hfold⟩ := record.foldl_cut hstarts hstarted hopen
    rw [hfold]
    refine ReadsUpTo.inside hprinted houtput ?_ ?_ ?_ hpart
    · rw [record.text_eq]
      obtain ⟨behind, hbehind⟩ := hstarts
      rw [← hbehind, List.flatMap_append]
      exact List.prefix_append _ _
    · obtain ⟨token, tokens, rfl⟩ := List.exists_cons_of_ne_nil hstarted
      simp
    · intro heq
      have hsplit := congrArg (List.splitOn 0) heq
      rw [record.text_eq, splitOn_terminated record.zero_not_mem_tokens, splitOn_terminated
        fun token htoken => record.zero_not_mem_tokens token (hstarts.subset htoken)] at hsplit
      exact hopen (List.append_cancel_right hsplit)

/-- A listing is read as its records, in order, and up to an earlier NUL as those
that end there and at most a part of the next, whether or not the NUL is there. -/
theorem parseWorktreePorcelain_listing (printed : List PrintedWorktree) :
    parseWorktreePorcelain (listing printed) = (printed.map fun record => record.info) ∧
    ∀ output rest, listing printed = output ++ 0 :: rest →
      ReadsUpTo printed output (parseWorktreePorcelain output) ∧
      parseWorktreePorcelain (output ++ [0]) = parseWorktreePorcelain output :=
  ⟨parse_listing printed, fun output _ h => ⟨readsUpTo h, parseWorktreePorcelain_terminated output⟩⟩

/-! ### One listing -/

/-- A worktree locked for a reason that looks like a path and another line. -/
def lockedRecord : WorktreeRecord where
  path := js "/a"
  bare := false
  head := some (js "0f")
  detached := true
  branch := none
  locked := some (js "worktree /b\nHEAD 1")
  prunable := some []
  noNul := by decide

def lockedPrinted : PrintedWorktree := ⟨lockedRecord, lockedRecord.attributes, .refl _⟩

theorem parseWorktreePorcelain_listing_locked :
    parseWorktreePorcelain (listing [lockedPrinted, lockedPrinted]) =
      [lockedRecord.info, lockedRecord.info] ∧
    ReadsUpTo [lockedPrinted, lockedPrinted] (js "worktree /a")
      (parseWorktreePorcelain (js "worktree /a")) :=
  ⟨(parseWorktreePorcelain_listing [lockedPrinted, lockedPrinted]).1,
    ((parseWorktreePorcelain_listing [lockedPrinted, lockedPrinted]).2 (js "worktree /a")
      ((listing [lockedPrinted, lockedPrinted]).drop 12) (by decide +kernel)).1⟩

/-! ## The listing of a site -/

/-- A worktree of the site as git prints it. -/
def GitWorktreeInfo.printed (worktree : GitWorktreeInfo)
    (h : ∀ text ∈ worktree.path :: (worktree.head.toList ++ worktree.branch.toList ++
      worktree.lockedReason.toList ++ worktree.prunableReason.toList), (0 : UInt16) ∉ text) :
    PrintedWorktree where
  path := worktree.path
  bare := false
  head := worktree.head
  detached := worktree.branch.isNone
  branch := worktree.branch
  locked := worktree.lockedReason
  prunable := worktree.prunableReason
  noNul := h
  order := _
  perm := .refl _

/-- The model of git prints records in this form. -/
theorem GitWorktreeInfo.text_printed (worktree : GitWorktreeInfo) (h) :
    (worktree.printed h).text = worktree.porcelain := by
  obtain ⟨path, head, branch, lockedReason, prunableReason⟩ := worktree
  cases head <;> cases branch <;> cases lockedReason <;> cases prunableReason <;> rfl

/-- The program sees the worktrees that git has. -/
theorem parse_site_listing (site : Site) (repoRoot : JsString)
    (h : ∀ worktree ∈ site.worktrees (site.repository repoRoot), ∀ text ∈ worktree.path ::
      (worktree.head.toList ++ worktree.branch.toList ++ worktree.lockedReason.toList ++
        worktree.prunableReason.toList), (0 : UInt16) ∉ text) :
    parseWorktreePorcelain (site.listing repoRoot) =
      site.worktrees (site.repository repoRoot) := by
  generalize hworktrees : site.worktrees (site.repository repoRoot) = worktrees at h
  have hlisting : site.listing repoRoot =
      listing (worktrees.attach.map fun w => w.1.printed (h w.1 w.2)) := by
    have hattach : worktrees = worktrees.attach.map Subtype.val :=
      (List.attach_map_subtype_val worktrees).symm
    conv_lhs => rw [Site.listing, hworktrees, hattach, List.flatMap_map]
    rw [listing, List.flatMap_map]
    simp only [GitWorktreeInfo.text_printed]
  rw [hlisting, parse_listing, List.map_map]
  exact (List.map_congr_left fun _ _ => rfl).trans (List.attach_map_subtype_val worktrees)

end Benchhand.Workspace
