/-
Benchhand.Instructions.DigestTheorems — the digest of a document and that of
its file.

A document has the digest of its content, encoded again. Decoding drops a byte
order mark and nothing else, so this is the digest of the file, which
FilesystemService asks for before it writes, exactly when the file does not
start with the mark (`document_sha256_iff`).
-/
import Benchhand.Filesystem.WriteSuccessTheorems
import Benchhand.Instructions.UntornTheorems
import Benchhand.Text.Buffer

namespace Benchhand.Instructions

open Text Posix Process Store

/-! ## Byte order marks -/

/-- The bytes of a byte order mark. -/
def markBytes : Bytes := String.utf8EncodeChar byteOrderMark

theorem head?_of_encoded {c : Char} {rest : Bytes} {chars : List Char}
    (h : String.utf8EncodeChar c ++ rest = chars.flatMap String.utf8EncodeChar) :
    chars.head? = some c := by
  cases chars with
  | nil =>
      have hlength := congrArg List.length h
      have hpos := c.utf8Size_pos
      rw [List.length_append, String.length_utf8EncodeChar] at hlength
      simp only [List.flatMap_nil, List.length_nil] at hlength
      omega
  | cons d chars =>
      have hdecode := @ByteArray.utf8DecodeChar?_utf8EncodeChar_append rest.toByteArray c
      have hdecode' := @ByteArray.utf8DecodeChar?_utf8EncodeChar_append
        (chars.flatMap String.utf8EncodeChar).toByteArray d
      rw [← List.toByteArray_append] at hdecode hdecode'
      rw [List.flatMap_cons] at h
      rw [h, hdecode'] at hdecode
      exact hdecode

/-- Text starts with the bytes of a mark when it starts with a mark. -/
theorem markBytes_prefix_iff {chars : List Char} :
    markBytes <+: chars.flatMap String.utf8EncodeChar ↔ chars.head? = some byteOrderMark := by
  constructor
  · rintro ⟨rest, h⟩
    exact head?_of_encoded h
  · intro h
    obtain ⟨rest, rfl⟩ := List.head?_eq_some_iff.mp h
    exact ⟨rest.flatMap String.utf8EncodeChar, List.flatMap_cons.symm⟩

/-- Decoded and encoded again, the bytes are the same when they do not start
with a mark. -/
theorem encodeUtf8_of_decoded {bytes : Bytes} {content : JsString}
    (h : decodeUtf8Fatal bytes = some content) :
    encodeUtf8 content = bytes ↔ ¬ markBytes <+: bytes := by
  obtain ⟨chars, rfl, rfl⟩ := (decodeUtf8Fatal_eq_some_iff bytes content).mp h
  rw [encodeUtf8_flatMap_units, markBytes_prefix_iff, withoutMark]
  split
  · rename_i hmark
    obtain ⟨rest, rfl⟩ := List.head?_eq_some_iff.mp hmark
    refine ⟨fun heq => ?_, fun hno => absurd hmark hno⟩
    have hlength := congrArg List.length heq
    have hpos := byteOrderMark.utf8Size_pos
    rw [List.flatMap_cons, List.length_append, String.length_utf8EncodeChar,
      List.tail_cons] at hlength
    omega
  · rename_i hmark
    exact ⟨fun _ => hmark, fun _ => rfl⟩

/-! ## Documents -/

/-- The digest that FilesystemService computes of a version. -/
theorem total_sha256File_version {filesystem : Filesystem.Service} {host : Host}
    {version : Version} {path portablePath : JsString} (h : host.version path = some version)
    (hsize : version.bytes.length ≤ maxInstructionBytes) :
    Filesystem.Total (filesystem.sha256File path portablePath)
      (fun digest _ => digest = filesystem.sha256 version.bytes) host.vol := by
  obtain ⟨place, bytes, mode, hlocate, hnode, rfl⟩ := Host.version_eq_some.mp h
  have hmax : maxInstructionBytes ≤ Filesystem.maxSafeInteger := by decide
  exact (Filesystem.total_sha256File hlocate hnode).mpr ⟨hsize.trans hmax, rfl⟩

/-- The digest of a document is that of its content. It is the digest of the
file, as FilesystemService has it, when the file does not start with a byte
order mark. -/
theorem document_sha256_iff {options : ServiceOptions} {service : Service}
    (hsha : Function.Injective options.sha256) (hservice : Service.new options = .ok service)
    {host : Host} {actions : List (Pool.Action Visit Turn)} {i : Nat} {turn : Turn}
    {visit : Visit} {timeline : Timeline Host} {result : InstructionsResolveResult}
    (h : Returning service host actions i turn visit timeline result) :
    ∀ document ∈ result.documents, ∀ file ∈ builtinFiles, document.providerId = file.1 →
      document.sha256 = service.sha256 (encodeUtf8 document.content) ∧
      ∃ version, ReadFrom service visit timeline file.2 document version ∧
        (document.sha256 = service.sha256 version.bytes ↔ ¬ markBytes <+: version.bytes) ∧
        ∀ (filesystem : Filesystem.Service) (host : Host) (path : JsString),
          host.version path = some version →
            Filesystem.Total (filesystem.sha256File path path)
              (fun digest _ => digest = filesystem.sha256 version.bytes) host.vol := by
  intro document hdocument file hfile hid
  obtain ⟨version, hread⟩ := untorn hsha hservice h document hdocument file hfile hid
  have hinjective : Function.Injective service.sha256 := by
    obtain ⟨-, rfl⟩ := new_ok_iff.mp hservice
    exact hsha
  refine ⟨hread.digest, version, hread, ?_, fun filesystem host path hversion =>
    total_sha256File_version hversion hread.size⟩
  rw [hread.digest, hinjective.eq_iff]
  exact encodeUtf8_of_decoded (decodeInstructionText_ok_iff.mp hread.decoded).2

/-! ## A file with a mark -/

namespace Sample

/-- A resolve while nothing changes. -/
def still : List (Pool.Action Visit Turn) := .start visit :: List.replicate 14 (.call 0 quiet)

/-- What was read is the file that was there all the time. -/
theorem bytes_of_still {bytes : Bytes} {timeline : Timeline Host}
    {result : InstructionsResolveResult}
    (h : Returning options.service (host bytes 7) still 0 quiet visit timeline result)
    {filename : JsString} {document : InstructionDocument} {version : Version}
    (hread : ReadFrom options.service visit timeline filename document version) :
    version.bytes = bytes := by
  have hactions : still ++ [.call 0 quiet] = .start visit :: List.replicate 15 (.call 0 quiet) := rfl
  have hnow := h.now
  rw [hactions, runFrom_cons, timeline_quiet] at hnow
  have hstart : timeline = ⟨[], host bytes 7⟩ := hnow
  subst hstart
  obtain ⟨_, _, _, -, -, -, n, shown, -, hshown, realPath, hshows, -⟩ := hread.during
  obtain rfl : n = 0 := Nat.le_zero.mp (Timeline.le_present_of_at? hshown)
  obtain rfl : host bytes 7 = shown := Option.some.inj hshown
  rw [version_host hshows.version]

end Sample

theorem document_sha256_plain : ∃ timeline result,
    Returning Sample.options.service (Sample.host [97, 98] 7) Sample.still 0 Sample.quiet
        Sample.visit timeline result ∧
      result.documents.map InstructionDocument.providerId = [js "builtin.agents"] ∧
      ∀ document ∈ result.documents,
        document.sha256 = Sample.options.sha256 (encodeUtf8 document.content) ∧
        document.sha256 = Sample.options.sha256 [97, 98] := by
  obtain ⟨timeline, result, hreturning, hids⟩ :=
    Sample.returning (Sample.meets_still (Sample.host [97, 98] 7) 14) (by decide +kernel)
      (by decide +kernel :
        Sample.shown? InstructionDocument.providerId _ _ = some [js "builtin.agents"])
  refine ⟨timeline, result, hreturning, hids, fun document hdocument => ?_⟩
  have hid : document.providerId = js "builtin.agents" := by
    have hmem := List.mem_map_of_mem (f := InstructionDocument.providerId) hdocument
    rw [hids] at hmem
    exact List.mem_singleton.mp hmem
  obtain ⟨hcontent, version, hread, hfile, -⟩ :=
    document_sha256_iff Sample.options_injective Sample.new_options hreturning document hdocument
      (js "builtin.agents", js "AGENTS.md") (by decide) hid
  rw [Sample.bytes_of_still hreturning hread] at hfile
  exact ⟨hcontent, hfile.mpr (by decide)⟩

theorem document_sha256_marked : ∃ timeline result version,
    Returning Sample.options.service (Sample.host (markBytes ++ [97]) 7) Sample.still 0
        Sample.quiet Sample.visit timeline result ∧
      (Sample.host (markBytes ++ [97]) 7).version (js "/AGENTS.md") = some version ∧
      decodeUtf8Fatal version.bytes = some (js "a") ∧
      result.documents.map InstructionDocument.sha256 = [Sample.options.sha256 [97]] ∧
      Sample.options.sha256 [97] ≠ Sample.options.sha256 version.bytes := by
  obtain ⟨timeline, result, hreturning, hdigests⟩ :=
    Sample.returning (Sample.meets_still (Sample.host (markBytes ++ [97]) 7) 14) (by decide +kernel)
      (by decide +kernel :
        Sample.shown? InstructionDocument.sha256 _ _ = some [Sample.options.sha256 [97]])
  exact ⟨timeline, result, ⟨⟨.file, 1, 2, 4, 7, 3⟩, markBytes ++ [97]⟩, hreturning,
    by decide +kernel, by decide +kernel, hdigests, by decide +kernel⟩

end Benchhand.Instructions
