/-
Benchhand.Filesystem.ReadTheorems — reading a file page by page.

On a volume that stays as it is, a read returns the range it was asked for
(`settles_read`), so the pages of a file are its ranges one after another
(`settles_readPages`). A range of a UTF-8 text is text itself just when it
starts and ends between characters, and a decoder drops a byte order mark at
the start of each range (`read_pages`).
-/
import Benchhand.Filesystem.ListTheorems
import Benchhand.Filesystem.Read
import Benchhand.Filesystem.WorkspaceTheorems

namespace Benchhand.Filesystem

open Text Posix Js

/-! ## Numbers of a request -/

/-- A double that is a natural number is read as that number. -/
theorem integer?_finite {x : Double} {n : Nat} (hneg : x.neg = false) (h : x.magnitude = n) :
    integer? (.finite x) = some n := by
  obtain ⟨neg, mant, exp, hcanonical⟩ := x
  obtain rfl : neg = false := hneg
  replace h : (mant : ℚ) * 2 ^ exp = n := h
  have hmagnitude : (if 0 ≤ exp then some (mant * 2 ^ exp.toNat)
      else if mant % 2 ^ (-exp).toNat = 0 then some (mant / 2 ^ (-exp).toNat) else none) =
        some n := by
    split
    · rename_i hexp
      obtain ⟨k, rfl⟩ := Int.eq_ofNat_of_zero_le hexp
      have hn : mant * 2 ^ k = n := by exact_mod_cast h
      rw [Int.toNat_natCast, hn]
    · rename_i hexp
      obtain ⟨k, hk⟩ : ∃ k : Nat, exp = -k := ⟨(-exp).toNat, by omega⟩
      have hn : mant = n * 2 ^ k := by
        rw [hk, zpow_neg, zpow_natCast] at h
        have hcast : (mant : ℚ) = n * 2 ^ k := by
          rw [← h, inv_mul_cancel_right₀ (by positivity)]
        exact_mod_cast hcast
      rw [hk, neg_neg, Int.toNat_natCast, hn, Nat.mul_mod_left, if_pos rfl,
        Nat.mul_div_cancel _ (by positivity)]
  simp only [integer?, hmagnitude]
  rfl

theorem integer?_ofNat {n : Nat} (h : n < 2 ^ 53) : integer? (.ofNat n) = some n := by
  obtain ⟨x, hx, hneg, hmagnitude⟩ := ofNat_eq h
  rw [hx, integer?_finite hneg hmagnitude]

theorem boundedInteger_ok {value : Js.Number} {n : Nat} (hvalue : integer? value = some n)
    {name : String} {minimum maximum : Nat} (hsafe : n ≤ maxSafeInteger) (hlo : minimum ≤ n)
    (hhi : n ≤ maximum) : boundedInteger value name minimum maximum = .ok n := by
  have hbounds : (n : Int).natAbs ≤ maxSafeInteger ∧ (minimum : Int) ≤ n ∧ (n : Int) ≤ maximum := by
    omega
  unfold boundedInteger
  rw [hvalue]
  exact if_pos hbounds

/-! ## One page -/

/-- What a read of a file returns for a range. -/
def rangeOf (path : JsString) (bytes : Bytes) (offset maxBytes : Nat) : ReadResult :=
  let data := (bytes.drop offset).take maxBytes
  { path, classification := classifyBuffer data, size := bytes.length, offset
    bytesRead := data.length
    eof := bytes.length ≤ offset + data.length
    truncated := !(bytes.length ≤ offset + data.length : Bool)
    content := if classifyBuffer data = .text then decodeUtf8Fatal data else none }

/-- The request path names an open file of an available workspace, under the
path that results show. -/
def Service.Opens (service : Service) (v : Volume) (id requestPath path : JsString)
    (handle : Handle) : Prop :=
  ∃ root segs, service.Root v id root ∧ normalizeRelativePath requestPath false = .ok path ∧
    path = portable segs ∧ (∀ s ∈ segs, Plain s) ∧ Leads v root segs handle.path ∧
    v.node? handle.path = some handle.node

theorem classifyBuffer_eq_text {data : Bytes} :
    classifyBuffer data = .text ↔ (0 : UInt8) ∉ data ∧ (decodeUtf8Fatal data).isSome := by
  unfold classifyBuffer
  split
  · simp_all
  · split <;> simp_all

section
variable {v : Volume} {path : JsString} {handle : Handle} {bytes : Bytes} {mode : Mode}

theorem settles_decodeUtf8 {data : Bytes} {text : JsString} (h : decodeUtf8Fatal data = some text) :
    Settles (decodeUtf8 data) v text v := by
  unfold decodeUtf8
  rw [h]
  exact settles_pure

theorem settles_readRange (hnode : handle.node = .file bytes mode)
    (hsize : bytes.length ≤ maxSafeInteger) (offset maxBytes : Nat) :
    Settles (readRange handle path offset maxBytes) v (rangeOf path bytes offset maxBytes) v := by
  have hstat : perform (.stat handle) v = (.ok ⟨.file, 0o100000 + mode.toNat, bytes.length⟩, v) := by
    simp only [perform, hnode, Node.stats]
  have hlength : ∀ length, perform (.read handle offset length) v =
      (.ok ((bytes.drop offset).take length), v) := by
    intro length
    simp only [perform, Handle.bytes, hnode]
    rfl
  have hdata : (bytes.drop offset).take (min maxBytes (bytes.length - offset)) =
      (bytes.drop offset).take maxBytes := by
    rw [← List.length_drop, List.take_eq_take_min, List.length_drop]
    simp
  have hread : Settles (if min maxBytes (bytes.length - offset) = 0 then pure []
      else Handle.read handle offset (min maxBytes (bytes.length - offset))) v
      ((bytes.drop offset).take maxBytes) v := by
    rw [← hdata]
    split
    · rename_i hzero
      rw [hzero, List.take_zero]
      exact settles_pure
    · exact settles_call (hlength _)
  have hcontent : ∀ data : Bytes, Settles
      (if classifyBuffer data = .text then some <$> decodeUtf8 data else pure none) v
      (if classifyBuffer data = .text then decodeUtf8Fatal data else none) v := by
    intro data
    split
    · rename_i htext
      obtain ⟨text, htext⟩ := Option.isSome_iff_exists.mp (classifyBuffer_eq_text.mp htext).2
      rw [htext]
      exact settles_map (settles_decodeUtf8 htext)
    · exact settles_pure
  unfold readRange
  refine settles_bind (settles_call hstat) ?_
  refine settles_bind (settles_failWhen (by simp)) ?_
  refine settles_bind (settles_failWhen (by simpa using hsize)) ?_
  refine settles_bind hread ?_
  exact settles_bind (hcontent _) settles_pure

/-- A read of an open file that nothing changes returns the range. -/
theorem settles_read {service : Service} {id requestPath : JsString}
    (h : service.Opens v id requestPath path handle) (hnode : handle.node = .file bytes mode)
    (hsize : bytes.length ≤ maxSafeInteger) {offset maxBytes : Nat} {start length : Js.Number}
    (hstart : boundedInteger start "offset" 0 maxSafeInteger = .ok offset)
    (hlength : boundedInteger length "maxBytes" 1 maxReadBytes = .ok maxBytes) :
    Settles (service.read ⟨id, requestPath, some start, some length⟩) v
      (rangeOf path bytes offset maxBytes) v := by
  obtain ⟨root, segs, hroot, hpath, rfl, hsegs, hleads, hfound⟩ := h
  have hopen : perform (.openRead handle.path.text) v = (.ok handle, v) :=
    perform_openRead.mpr ⟨rfl, Volume.locate_text hleads.lands, hfound⟩
  have hclose : perform (.close handle) v = (.ok ⟨⟩, v) := rfl
  unfold Service.read
  refine settles_bind (settles_accessWorkspace hroot) ?_
  refine settles_bind (settles_ofExcept hpath) ?_
  refine settles_bind (settles_ofExcept hstart) ?_
  refine settles_bind (settles_ofExcept hlength) ?_
  refine settles_bind (settles_resolveExistingPath hroot.lands.plain hsegs hleads) ?_
  refine settles_bind (settles_mapError (settles_call hopen)) ?_
  exact settles_tryFinally (settles_readRange hnode hsize offset maxBytes) (settles_call hclose)

end

/-! ## All pages -/

/-- A client that reads on at `offset + bytesRead` until `eof`; none when it
has made `fuel` requests and is not there yet. -/
def Service.readPages (service : Service) (id path : JsString) (maxBytes : Js.Number) :
    Nat → Nat → Async (Option (List ReadResult))
  | 0, _ => pure none
  | fuel + 1, offset => do
      let page ← service.read ⟨id, path, some (.ofNat offset), some maxBytes⟩
      if page.eof then return some [page]
      else do
        let rest ← service.readPages id path maxBytes fuel (offset + page.bytesRead)
        return rest.map (page :: ·)

/-- How many requests a file takes. -/
def pageCount (size maxBytes : Nat) : Nat := max 1 ((size + maxBytes - 1) / maxBytes)

/-- Page `k` of a file. -/
def filePage (path : JsString) (bytes : Bytes) (maxBytes k : Nat) : ReadResult :=
  rangeOf path bytes (k * maxBytes) maxBytes

theorem lt_pageCount_iff (size k : Nat) {maxBytes : Nat} (h : 0 < maxBytes) :
    k < pageCount size maxBytes ↔ k = 0 ∨ k * maxBytes < size := by
  rw [pageCount, lt_max_iff, Nat.lt_one_iff, Nat.lt_iff_add_one_le, Nat.le_div_iff_mul_le h]
  refine or_congr_right ?_
  rw [Nat.add_mul, Nat.one_mul]
  omega

section
variable {v : Volume} {path : JsString} {handle : Handle} {bytes : Bytes} {mode : Mode}

/-- Page `k` is the last one just when the next would start behind the file. -/
theorem eof_filePage (path : JsString) {maxBytes k : Nat} (hk : k * maxBytes ≤ bytes.length) :
    (filePage path bytes maxBytes k).eof = true ↔ bytes.length ≤ (k + 1) * maxBytes := by
  have hlength : ((bytes.drop (k * maxBytes)).take maxBytes).length =
      min maxBytes (bytes.length - k * maxBytes) := by
    rw [List.length_take, List.length_drop]
  simp only [filePage, rangeOf, decide_eq_true_eq, hlength, Nat.add_mul, Nat.one_mul]
  omega

/-- A page that is not the last one is full. -/
theorem bytesRead_filePage {maxBytes k : Nat} (hk : (k + 1) * maxBytes ≤ bytes.length) :
    (filePage path bytes maxBytes k).bytesRead = maxBytes := by
  rw [Nat.add_mul, Nat.one_mul] at hk
  simp only [filePage, rangeOf, List.length_take, List.length_drop]
  omega

/-- From page `k` on, `left` pages remain. -/
theorem settles_readPages_from {service : Service} {id requestPath : JsString}
    (h : service.Opens v id requestPath path handle) (hnode : handle.node = .file bytes mode)
    (hsize : bytes.length ≤ maxSafeInteger) {maxBytes : Js.Number} {m : Nat}
    (hm : boundedInteger maxBytes "maxBytes" 1 maxReadBytes = .ok m) (hpos : 0 < m) :
    ∀ (left k fuel : Nat), k + left = pageCount bytes.length m → 0 < left → left ≤ fuel →
      Settles (service.readPages id requestPath maxBytes fuel (k * m)) v
        (some ((List.range' k left).map (filePage path bytes m))) v
  | 0, _, _, _, hleft, _ => absurd hleft (Nat.lt_irrefl 0)
  | left + 1, k, 0, _, _, hfuel => absurd hfuel (Nat.not_succ_le_zero left)
  | left + 1, k, fuel + 1, hk, _, hfuel => by
      have hstart : k * m ≤ bytes.length := by
        obtain rfl | hlt := (lt_pageCount_iff _ _ hpos).mp (by omega : k < pageCount bytes.length m)
        · omega
        · exact hlt.le
      have hoffset : boundedInteger (.ofNat (k * m)) "offset" 0 maxSafeInteger = .ok (k * m) := by
        have hlt : k * m < 2 ^ 53 := by
          unfold maxSafeInteger at hsize
          omega
        exact boundedInteger_ok (integer?_ofNat hlt) (hstart.trans hsize) (Nat.zero_le _)
          (hstart.trans hsize)
      have hread : Settles (service.read ⟨id, requestPath, some (.ofNat (k * m)), some maxBytes⟩) v
          (filePage path bytes m k) v := settles_read h hnode hsize hoffset hm
      have hlast := lt_pageCount_iff bytes.length (k + 1) hpos
      have heof := eof_filePage path hstart
      rw [Service.readPages]
      refine settles_bind hread ?_
      cases left with
      | zero =>
          have hend : (filePage path bytes m k).eof = true := by
            rw [heof]
            by_contra hmore
            have := hlast.mpr (.inr (by omega))
            omega
          rw [if_pos hend]
          exact settles_pure
      | succ left =>
          have hmore : (k + 1) * m < bytes.length := by
            obtain hzero | hmore := hlast.mp (by omega)
            · omega
            · exact hmore
          have hnext : k * m + (filePage path bytes m k).bytesRead = (k + 1) * m := by
            rw [bytesRead_filePage hmore.le, Nat.add_mul, Nat.one_mul]
          rw [if_neg (by rw [heof]; omega), hnext]
          exact settles_bind (settles_readPages_from h hnode hsize hm hpos (left + 1) (k + 1) fuel
            (by omega) (by omega) (by omega)) settles_pure

/-- The pages of a file come to an end with the last one. -/
theorem settles_readPages {service : Service} {id requestPath : JsString}
    (h : service.Opens v id requestPath path handle) (hnode : handle.node = .file bytes mode)
    (hsize : bytes.length ≤ maxSafeInteger) {maxBytes : Js.Number} {m : Nat}
    (hm : boundedInteger maxBytes "maxBytes" 1 maxReadBytes = .ok m) (hpos : 0 < m) {fuel : Nat}
    (hfuel : pageCount bytes.length m ≤ fuel) :
    Settles (service.readPages id requestPath maxBytes fuel 0) v
      (some ((List.range (pageCount bytes.length m)).map (filePage path bytes m))) v := by
  have hcount : 0 < pageCount bytes.length m := Nat.le_max_left 1 _
  have hall := settles_readPages_from h hnode hsize hm hpos (pageCount bytes.length m) 0 fuel
    (Nat.zero_add _) hcount hfuel
  rwa [Nat.zero_mul, ← List.range_eq_range'] at hall

end

/-! ## Text in pages -/

/-- A range of a UTF-8 text is UTF-8 when it starts and ends between
characters. -/
theorem exists_range {chars : List Char} {before data after : Bytes}
    (h : chars.flatMap String.utf8EncodeChar = before ++ data ++ after)
    (hdata : ∀ b ∈ (data ++ after).head?, b.IsUTF8FirstByte)
    (hafter : ∀ b ∈ after.head?, b.IsUTF8FirstByte) :
    ∃ range : List Char, data = range.flatMap String.utf8EncodeChar := by
  rw [List.append_assoc] at h
  obtain ⟨_, chars', _, _, h'⟩ := utf8.encode_split h hdata
  obtain ⟨range, _, _, hrange, _⟩ := utf8.encode_split h'.symm hafter
  exact ⟨range, hrange⟩

/-- The pages of a file make up the file. -/
theorem flatMap_ranges (bytes : Bytes) (m : Nat) : ∀ n : Nat,
    ((List.range n).flatMap fun k => (bytes.drop (k * m)).take m) = bytes.take (n * m)
  | 0 => by simp
  | n + 1 => by
      rw [List.range_succ, List.flatMap_append, flatMap_ranges bytes m n, List.flatMap_cons,
        List.flatMap_nil, List.append_nil, Nat.add_mul, Nat.one_mul, List.take_add]

/-- No page boundary falls inside the bytes of a character. -/
def BetweenCharacters (bytes : Bytes) (m : Nat) : Prop :=
  ∀ k b, bytes[k * m]? = some b → b.IsUTF8FirstByte

/-- No page starts with the bytes of a byte order mark. -/
def Unmarked (bytes : Bytes) (m : Nat) : Prop :=
  ∀ k, ¬ [0xEF, 0xBB, 0xBF] <+: bytes.drop (k * m)

section
variable {path : JsString} {bytes : Bytes} {m : Nat} {chars : List Char}
  (hbytes : bytes = chars.flatMap String.utf8EncodeChar)
include hbytes

theorem BetweenCharacters.page (h : BetweenCharacters bytes m) (k : Nat) :
    ∃ range : List Char, (bytes.drop (k * m)).take m = range.flatMap String.utf8EncodeChar := by
  have hlead : ∀ i, ∀ b ∈ (bytes.drop (i * m)).head?, b.IsUTF8FirstByte := by
    intro i b hb
    rw [List.head?_drop] at hb
    exact h i b hb
  have hafter : (bytes.drop (k * m)).drop m = bytes.drop ((k + 1) * m) := by
    rw [List.drop_drop, Nat.add_mul, Nat.one_mul]
  have hdata := List.take_append_drop m (bytes.drop (k * m))
  have hsplit : chars.flatMap String.utf8EncodeChar =
      bytes.take (k * m) ++ (bytes.drop (k * m)).take m ++ bytes.drop ((k + 1) * m) := by
    rw [← hbytes, List.append_assoc, ← hafter, hdata, List.take_append_drop]
  refine exists_range hsplit ?_ (hlead (k + 1))
  rw [← hafter, hdata]
  exact hlead k

/-- Every page is text just when no boundary falls inside a character. -/
theorem all_text_iff (path : JsString) (hnul : (0 : UInt8) ∉ bytes) (hpos : 0 < m) :
    (∀ k < pageCount bytes.length m, (filePage path bytes m k).classification = .text) ↔
      BetweenCharacters bytes m := by
  have htext : ∀ k, (filePage path bytes m k).classification = .text ↔
      (decodeUtf8Fatal ((bytes.drop (k * m)).take m)).isSome := by
    intro k
    refine classifyBuffer_eq_text.trans (and_iff_right fun hmem => hnul ?_)
    exact List.mem_of_mem_drop (List.mem_of_mem_take hmem)
  constructor
  · intro h k b hb
    have hlt : k * m < bytes.length := (List.getElem?_eq_some_iff.mp hb).1
    obtain ⟨text, hdecode⟩ := Option.isSome_iff_exists.mp
      ((htext k).mp (h k ((lt_pageCount_iff _ _ hpos).mpr (.inr hlt))))
    obtain ⟨range, hrange, -⟩ := (decodeUtf8Fatal_eq_some_iff _ _).mp hdecode
    have hhead : ((bytes.drop (k * m)).take m).head? = some b := by
      rw [List.head?_take, if_neg hpos.ne', List.head?_drop, hb]
    obtain ⟨rest, hcons⟩ := List.head?_eq_some_iff.mp hhead
    exact utf8.encode_head_lead (hrange.symm.trans hcons)
  · intro h k _
    obtain ⟨range, hrange⟩ := h.page hbytes k
    rw [htext, Option.isSome_iff_exists]
    exact ⟨_, (decodeUtf8Fatal_eq_some_iff _ _).mpr ⟨range, hrange, rfl⟩⟩

/-- The contents of whole pages without marks are the file. -/
theorem encodeUtf8_pages (hnul : (0 : UInt8) ∉ bytes) (hpos : 0 < m)
    (hbetween : BetweenCharacters bytes m) (hunmarked : Unmarked bytes m) :
    encodeUtf8 ((List.range (pageCount bytes.length m)).flatMap fun k =>
      ((filePage path bytes m k).content.getD [])) = bytes := by
  choose range hrange using fun k => hbetween.page hbytes k
  have hmark : ∀ k, withoutMark (range k) = range k := by
    intro k
    refine if_neg fun hhead => hunmarked k ?_
    obtain ⟨rest, hrest⟩ := List.head?_eq_some_iff.mp hhead
    have hmarked : [0xEF, 0xBB, 0xBF] <+: (bytes.drop (k * m)).take m := by
      rw [hrange k, hrest, List.flatMap_cons]
      exact ⟨_, rfl⟩
    exact hmarked.trans (List.take_prefix _ _)
  have hcontent : ∀ k < pageCount bytes.length m,
      (filePage path bytes m k).content.getD [] = (range k).flatMap units := by
    intro k hk
    have htext : classifyBuffer ((bytes.drop (k * m)).take m) = .text :=
      (all_text_iff hbytes path hnul hpos).mpr hbetween k hk
    have hdecode : decodeUtf8Fatal ((bytes.drop (k * m)).take m) =
        some ((range k).flatMap units) :=
      (decodeUtf8Fatal_eq_some_iff _ _).mpr ⟨range k, hrange k, by rw [hmark]⟩
    change (if classifyBuffer _ = .text then decodeUtf8Fatal _ else none).getD [] = _
    rw [if_pos htext, hdecode]
    rfl
  have hall : ((List.range (pageCount bytes.length m)).flatMap fun k =>
      (filePage path bytes m k).content.getD []) =
      ((List.range (pageCount bytes.length m)).flatMap range).flatMap units := by
    rw [List.flatMap_assoc]
    exact List.flatMap_congr fun k hk => hcontent k (List.mem_range.mp hk)
  have hlength : bytes.length ≤ pageCount bytes.length m * m := by
    by_contra hlt
    have := (lt_pageCount_iff _ _ hpos).mpr (.inr (Nat.lt_of_not_le hlt))
    omega
  rw [hall, encodeUtf8_flatMap_units, List.flatMap_assoc]
  calc ((List.range (pageCount bytes.length m)).flatMap fun k =>
        (range k).flatMap String.utf8EncodeChar)
      = (List.range (pageCount bytes.length m)).flatMap fun k => (bytes.drop (k * m)).take m :=
        List.flatMap_congr fun k _ => (hrange k).symm
    _ = bytes := by rw [flatMap_ranges, List.take_of_length_le hlength]

end

/-- Reading a UTF-8 file without NUL page by page, while nothing changes it:
the requests come to an end; each page is text just when no boundary falls
inside a character; and if no page starts with a byte order mark either, the
contents together are the file. -/
theorem read_pages {service : Service} {v : Volume} {id requestPath path : JsString}
    {handle : Handle} {bytes : Bytes} {mode : Mode}
    (h : service.Opens v id requestPath path handle) (hnode : handle.node = .file bytes mode)
    (hsize : bytes.length ≤ maxSafeInteger)
    (hutf8 : ∃ chars : List Char, bytes = chars.flatMap String.utf8EncodeChar)
    (hnul : (0 : UInt8) ∉ bytes) {maxBytes : Js.Number} {m : Nat}
    (hm : boundedInteger maxBytes "maxBytes" 1 maxReadBytes = .ok m) :
    ∃ pages : List ReadResult, pages.length = pageCount bytes.length m ∧
      (∀ fuel, pages.length ≤ fuel →
        Settles (service.readPages id requestPath maxBytes fuel 0) v (some pages) v) ∧
      ((∀ page ∈ pages, page.classification = .text) ↔ BetweenCharacters bytes m) ∧
      (BetweenCharacters bytes m → Unmarked bytes m →
        encodeUtf8 (pages.flatMap fun page => page.content.getD []) = bytes) := by
  obtain ⟨chars, hbytes⟩ := hutf8
  have hoption : boundedOption (some maxBytes) 1 "maxBytes" 1 maxReadBytes = .ok m := hm
  have hpos : 0 < m := boundedOption_pos hoption (Nat.le_refl 1)
  refine ⟨(List.range (pageCount bytes.length m)).map (filePage path bytes m), by simp,
    fun fuel hfuel => settles_readPages h hnode hsize hm hpos (by simpa using hfuel), ?_, ?_⟩
  · rw [← all_text_iff hbytes path hnul hpos]
    simp
  · intro hbetween hunmarked
    rw [List.flatMap_map]
    exact encodeUtf8_pages hbytes hnul hpos hbetween hunmarked

/-- The pages of a file are text and make up the file. -/
def ReproducesText (service : Service) (v : Volume) (id requestPath : JsString)
    (maxBytes : Js.Number) (bytes : Bytes) : Prop :=
  ∃ (enough : Nat) (pages : List ReadResult),
    (∀ fuel, enough ≤ fuel →
      Settles (service.readPages id requestPath maxBytes fuel 0) v (some pages) v) ∧
    (∀ page ∈ pages, page.classification = .text) ∧
    encodeUtf8 (pages.flatMap fun page => page.content.getD []) = bytes

/-- A workspace with the file `a`. -/
def oneFile (bytes : Bytes) : Volume :=
  ⟨⟨[(["ws".toList], .directory), (["ws".toList, "a".toList], .file bytes 0o644)], by
    change [["ws".toList], ["ws".toList, "a".toList]].Nodup
    decide⟩, 0o022⟩

theorem oneFile_opens (bytes : Bytes) : oneWorkspace.Opens (oneFile bytes) (js "ws") (js "a")
    (js "a") ⟨["ws".toList, "a".toList], .file bytes 0o644⟩ := by
  have hroot : (oneFile bytes).locate true (Path.text ["ws".toList]) = .ok ["ws".toList] := rfl
  refine ⟨["ws".toList], [js "a"], ⟨rfl, Volume.lands_of_locate hroot, rfl⟩, rfl, rfl, ?_,
    ⟨rfl, rfl, ⟨_, rfl⟩⟩, rfl⟩
  intro s hs
  obtain rfl := List.mem_singleton.mp hs
  exact ⟨by decide, by decide, by decide, by decide⟩

/-- Only the boundaries in the file matter. -/
theorem betweenCharacters_of_lt {bytes : Bytes} {m : Nat} (hpos : 0 < m)
    (h : ∀ k < bytes.length, ∀ b ∈ bytes[k * m]?, b.IsUTF8FirstByte) : BetweenCharacters bytes m := by
  intro k b hb
  have hlt : k * m < bytes.length := (List.getElem?_eq_some_iff.mp hb).1
  exact h k (lt_of_le_of_lt (Nat.le_mul_of_pos_right k hpos) hlt) b hb

theorem unmarked_of_lt {bytes : Bytes} {m : Nat} (hpos : 0 < m)
    (h : ∀ k < bytes.length, ¬ [0xEF, 0xBB, 0xBF] <+: bytes.drop (k * m)) : Unmarked bytes m := by
  intro k hmarked
  have hlt : k * m < bytes.length := by
    have := hmarked.length_le
    simp only [List.length_cons, List.length_nil, List.length_drop] at this
    omega
  exact h k (lt_of_le_of_lt (Nat.le_mul_of_pos_right k hpos) hlt) hmarked

theorem read_pages_text : ∃ pages : List ReadResult, pages.length = 2 ∧
    (∀ page ∈ pages, page.classification = .text) ∧
    encodeUtf8 (pages.flatMap fun page => page.content.getD []) = encodeUtf8 (js "abcdé") := by
  obtain ⟨pages, hlength, -, htext, hall⟩ := read_pages (oneFile_opens (encodeUtf8 (js "abcdé")))
    rfl (by decide) ⟨"abcdé".toList, by decide⟩ (by decide)
    (boundedInteger_ok (integer?_ofNat (n := 4) (by decide)) (by decide) (by decide) (by decide))
  have hbetween : BetweenCharacters (encodeUtf8 (js "abcdé")) 4 :=
    betweenCharacters_of_lt (by decide) (by decide +kernel)
  exact ⟨pages, hlength, htext.mpr hbetween,
    hall hbetween (unmarked_of_lt (by decide) (by decide +kernel))⟩

/-- A page that ends in the middle of `é` is not text. -/
theorem read_pages_cut : ∃ bytes : Bytes, bytes = encodeUtf8 (js "aaaé") ∧ (0 : UInt8) ∉ bytes ∧
    oneWorkspace.Opens (oneFile bytes) (js "ws") (js "a") (js "a")
      ⟨["ws".toList, "a".toList], .file bytes 0o644⟩ ∧
    ¬ ReproducesText oneWorkspace (oneFile bytes) (js "ws") (js "a") (.ofNat 4) bytes := by
  refine ⟨_, rfl, by decide, oneFile_opens _, ?_⟩
  rintro ⟨enough, pages, hpages, htext, -⟩
  have hread := settles_readPages (oneFile_opens (encodeUtf8 (js "aaaé"))) rfl (by decide)
    (boundedInteger_ok (integer?_ofNat (n := 4) (by decide)) (by decide) (by decide) (by decide))
    (by decide) (Nat.le_max_right enough _)
  obtain rfl := Option.some.inj ((hpages _ (Nat.le_max_left enough _)).value hread)
  have hbetween : BetweenCharacters (encodeUtf8 (js "aaaé")) 4 :=
    (all_text_iff (show encodeUtf8 (js "aaaé") = "aaaé".toList.flatMap _ by decide) (js "a")
      (by decide) (by decide)).mp fun k hk => htext _ (List.mem_map_of_mem (List.mem_range.mpr hk))
  exact absurd (hbetween 1 0xA9 (by decide)) (by decide)

end Benchhand.Filesystem
