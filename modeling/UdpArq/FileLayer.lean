import UdpArq.Lib.BigEndian
import UdpArq.Lib.Blocks
import UdpArq.Lib.Dict

/-!
# The file layer

`file_layer.py`: cutting byte strings and files into chunks, putting chunks
together again, and hashing.  Files are read and written in binary mode, writing
succeeds, and a file system holds the contents of the files by their paths.
-/

namespace UdpArq

namespace FileLayer

/-! ## In memory -/

/-- The exceptions of this module. -/
inductive FileError
  | typeError (message : String)
  | valueError (message : String)
  | fileNotFound (path : String)
  deriving DecidableEq

/-- The `data` arguments: bytes-like, or of another type. -/
inductive Argument
  | bytesLike (data : Bytes)
  | other

/-- `range(start, stop, step)` for a positive step. -/
def range (start stop step : ℕ) (hstep : 0 < step) : List ℕ :=
  if start < stop then start :: range (start + step) stop step hstep else []
termination_by stop - start

/-- `chunk`. -/
def chunk (data : Argument) (mss : ℤ := 1024) : Except FileError (List Bytes) :=
  match data with
  | .other => .error (.typeError "data must be bytes-like")
  | .bytesLike data =>
      if hmss : mss ≤ 0 then
        .error (.valueError "mss must be greater than zero")
      else
        .ok ((range 0 data.length mss.toNat (by omega)).map fun start =>
          data.extract start (start + mss.toNat))

/-- `reassemble`. -/
def reassemble (chunks : List Bytes) : Bytes := chunks.flatten

/-- `hashlib.sha256`: a digest object is made from bytes and updated with more;
updating is the same as hashing the concatenation. -/
structure Sha256 where
  Digest : Type
  sha256 : Bytes → Digest
  update : Digest → Bytes → Digest
  hexdigest : Digest → String
  update_sha256 : ∀ a b, update (sha256 a) b = sha256 (a ++ b)

/-- `sha256_hex`. -/
def sha256Hex (H : Sha256) : Argument → Except FileError String
  | .other => .error (.typeError "data must be bytes-like")
  | .bytesLike data => .ok (H.hexdigest (H.sha256 data))

/-! ## Files -/

/-- A file that is open for reading. -/
structure File where
  content : Bytes
  position : ℕ

namespace File

/-- What has not been read yet. -/
def remaining (file : File) : Bytes := file.content.drop file.position

/-- `file.read(n)`: the next `n` bytes, or all that remain. -/
def read (file : File) (n : ℕ) : Bytes × File :=
  let data := file.remaining.take n
  (data, { file with position := file.position + data.length })

theorem remaining_read (file : File) (n : ℕ) :
    (file.read n).2.remaining = file.remaining.drop n := by
  simp only [read, remaining, List.drop_drop, List.length_take, List.length_drop]
  rcases Nat.le_total n (file.content.length - file.position) with hle | hle
  · rw [min_eq_left hle]
  · rw [min_eq_right hle, List.drop_eq_nil_of_le (by omega),
      List.drop_eq_nil_of_le (by omega)]

theorem read_eq_nil_iff (file : File) {n : ℕ} (hn : 0 < n) :
    (file.read n).1 = [] ↔ file.remaining = [] := by
  simp [read, hn.ne']

theorem length_remaining_read_lt (file : File) {n : ℕ} (hn : 0 < n)
    (hdata : (file.read n).1 ≠ []) :
    (file.read n).2.remaining.length < file.remaining.length := by
  have hne : file.remaining ≠ [] := mt (file.read_eq_nil_iff hn).mpr hdata
  have hpos : 0 < file.remaining.length := List.length_pos_iff.mpr hne
  rw [remaining_read, List.length_drop]
  omega

end File

/-- `while True: data = file.read(n)` up to the first read that returns nothing;
`body` is what the loop does with `data`. -/
def whileRead {σ : Type} (n : ℕ) (hn : 0 < n) (body : σ → Bytes → σ) (s : σ)
    (file : File) : σ :=
  if _ : (file.read n).1 = [] then s
  else whileRead n hn body (body s (file.read n).1) (file.read n).2
termination_by file.remaining.length
decreasing_by exact file.length_remaining_read_lt hn ‹_›

/-- The contents of the files. -/
abbrev FileSystem := Dict String Bytes

/-- `path.open("rb")`. -/
def openRb (fs : FileSystem) (path : String) : Except FileError File :=
  match fs.get? path with
  | none => .error (.fileNotFound path)
  | some content => .ok ⟨content, 0⟩

/-- `read_file_chunks`, the chunks that the whole iteration yields. -/
def readFileChunks (fs : FileSystem) (path : String) (mss : ℤ) :
    Except FileError (List Bytes) :=
  if hmss : mss ≤ 0 then
    .error (.valueError "mss must be greater than zero")
  else (openRb fs path).map fun file =>
    whileRead mss.toNat (by omega) (fun yielded data => yielded ++ [data]) [] file

/-- `file.write(data)` of a file that is open for writing. -/
def write (fs : FileSystem) (path : String) (data : Bytes) : FileSystem :=
  fs.modify path (· ++ data)

/-- `reassemble_file`; opening the file for writing empties it. -/
def reassembleFile (fs : FileSystem) (chunks : List Bytes)
    (outputPath : String) : FileSystem :=
  chunks.foldl (fun fs data => write fs outputPath data) (fs.set outputPath [])

def DEFAULT_HASH_CHUNK_SIZE : ℤ := 1024 * 1024

/-- `sha256_file`. -/
def sha256File (H : Sha256) (fs : FileSystem) (path : String)
    (chunkSize : ℤ := DEFAULT_HASH_CHUNK_SIZE) : Except FileError String :=
  if hsize : chunkSize ≤ 0 then
    .error (.valueError "chunk_size must be greater than zero")
  else (openRb fs path).map fun file =>
    H.hexdigest (whileRead chunkSize.toNat (by omega) H.update (H.sha256 []) file)

/-- `files_match`. -/
def filesMatch (H : Sha256) (fs : FileSystem)
    (sourcePath destinationPath : String) : Except FileError Bool := do
  let source ← sha256File H fs sourcePath
  let destination ← sha256File H fs destinationPath
  return source == destination

/-! ## Both loops cut into blocks -/

theorem cuts_range (data : Bytes) {mss : ℕ} (hmss : 0 < mss) (start : ℕ) :
    Cuts mss (data.drop start) ((range start data.length mss hmss).map
      fun start => data.extract start (start + mss)) := by
  fun_induction range start data.length mss hmss with
  | case1 start hlt ih =>
      have hne : data.drop start ≠ [] := by simpa using hlt
      rw [← List.drop_drop] at ih
      have hcons := Cuts.cons hmss hne ih
      simpa [List.extract_eq_take_drop] using hcons
  | case2 start hge =>
      rw [List.drop_eq_nil_of_le (not_lt.mp hge)]
      exact Cuts.nil mss

/-- The loop goes through the blocks of what has not been read. -/
theorem whileRead_eq {σ : Type} {n : ℕ} (hn : 0 < n) (body : σ → Bytes → σ)
    (s : σ) {file : File} {blocks : List Bytes}
    (h : Cuts n file.remaining blocks) :
    whileRead n hn body s file = blocks.foldl body s := by
  induction blocks generalizing file s with
  | nil =>
      have hnil : file.remaining = [] := h.eq_nil_iff.mp rfl
      rw [whileRead, dif_pos ((file.read_eq_nil_iff hn).mpr hnil)]
      rfl
  | cons block blocks ih =>
      have hne : file.remaining ≠ [] := by
        intro hnil
        exact absurd (h.eq_nil_iff.mpr hnil) (by simp)
      have htail : Cuts n (file.read n).2.remaining blocks := by
        rw [file.remaining_read]
        exact h.tail
      rw [whileRead, dif_neg (mt (file.read_eq_nil_iff hn).mp hne), ih _ htail,
        List.foldl_cons, h.head_eq.1]
      rfl

theorem chunk_cuts (data : Bytes) {mss : ℕ} (hmss : 0 < mss) :
    ∃ chunks, chunk (.bytesLike data) mss = .ok chunks ∧
      Cuts mss data chunks := by
  have hpos : ¬ (mss : ℤ) ≤ 0 := by omega
  exact ⟨_, dif_neg hpos, cuts_range data hmss 0⟩

/-! ## Files that are read to their end -/

section

variable {fs : FileSystem} {path : String} {data : Bytes} {n : ℕ}
  {blocks : List Bytes}

theorem openRb_eq (hfile : fs.get? path = some data) :
    openRb fs path = .ok ⟨data, 0⟩ := by
  rw [openRb, hfile]

theorem readFileChunks_eq (hfile : fs.get? path = some data) (hn : 0 < n)
    (h : Cuts n data blocks) : readFileChunks fs path n = .ok blocks := by
  have hpos : ¬ (n : ℤ) ≤ 0 := by omega
  have hremaining : Cuts n (File.mk data 0).remaining blocks := h
  rw [readFileChunks, dif_neg hpos, openRb_eq hfile]
  apply congrArg Except.ok
  calc whileRead n hn (fun yielded data => yielded ++ [data]) [] ⟨data, 0⟩
      = blocks.foldl (fun yielded data => yielded ++ [data]) [] :=
        whileRead_eq hn _ _ hremaining
    _ = blocks := by
      rw [List.foldl_append_eq_append, List.nil_append, ← List.flatMap_def,
        List.flatMap_singleton']

theorem foldl_update (H : Sha256) (start : Bytes) (blocks : List Bytes) :
    blocks.foldl H.update (H.sha256 start) =
      H.sha256 (start ++ blocks.flatten) := by
  induction blocks generalizing start with
  | nil => rw [List.foldl_nil, List.flatten_nil, List.append_nil]
  | cons block blocks ih =>
      rw [List.foldl_cons, H.update_sha256, ih, List.flatten_cons,
        List.append_assoc]

/-- The digest of a file does not depend on the size of the reads. -/
theorem sha256File_eq (H : Sha256) (hfile : fs.get? path = some data)
    (hn : 0 < n) : sha256File H fs path n = .ok (H.hexdigest (H.sha256 data)) := by
  have hpos : ¬ (n : ℤ) ≤ 0 := by omega
  obtain ⟨blocks, -, hcuts⟩ := chunk_cuts data hn
  have hremaining : Cuts n (File.mk data 0).remaining blocks := hcuts
  rw [sha256File, dif_neg hpos, openRb_eq hfile]
  apply congrArg fun digest => Except.ok (H.hexdigest digest)
  calc whileRead n hn H.update (H.sha256 []) ⟨data, 0⟩
      = blocks.foldl H.update (H.sha256 []) := whileRead_eq hn _ _ hremaining
    _ = H.sha256 blocks.flatten := foldl_update H [] blocks
    _ = H.sha256 data := by rw [hcuts.flatten]

end

/-! ## Files that are written -/

theorem get?_write (fs : FileSystem) (path : String) (data : Bytes)
    (other : String) : (write fs path data).get? other =
      if other = path then (fs.get? path).map (· ++ data)
      else fs.get? other :=
  Dict.get?_modify fs path other (· ++ data)

/-- The file holds what the chunks hold, and no other file is touched. -/
theorem get?_reassembleFile (fs : FileSystem) (chunks : List Bytes)
    (outputPath other : String) :
    (reassembleFile fs chunks outputPath).get? other =
      if other = outputPath then some (reassemble chunks)
      else fs.get? other := by
  induction chunks using List.reverseRecOn generalizing other with
  | nil => exact Dict.get?_set fs outputPath other []
  | append_singleton chunks chunk ih =>
      have hlast : reassembleFile fs (chunks ++ [chunk]) outputPath =
          write (reassembleFile fs chunks outputPath) outputPath chunk :=
        List.foldl_concat _ _ _ _
      rw [hlast, get?_write, ih, ih, if_pos rfl]
      split_ifs with hother
      · simp [reassemble]
      · rfl

/-- A file and its copy, made chunk by chunk, match. -/
theorem filesMatch_copy (H : Sha256) {fs : FileSystem} {path : String}
    {data : Bytes} (hfile : fs.get? path = some data) {mss : ℕ} (hmss : 0 < mss)
    (outputPath : String) :
    ∃ chunks, readFileChunks fs path mss = .ok chunks ∧
      filesMatch H (reassembleFile fs chunks outputPath) path outputPath =
        .ok true := by
  obtain ⟨chunks, -, hcuts⟩ := chunk_cuts data hmss
  refine ⟨chunks, readFileChunks_eq hfile hmss hcuts, ?_⟩
  have hreassemble : reassemble chunks = data := hcuts.flatten
  have hcopy : (reassembleFile fs chunks outputPath).get? outputPath =
      some data := by
    rw [get?_reassembleFile, if_pos rfl, hreassemble]
  have hsource : (reassembleFile fs chunks outputPath).get? path =
      some data := by
    rw [get?_reassembleFile, hreassemble, hfile, ite_self]
  have hsize : 0 < 1024 * 1024 := by decide
  have hdefault : DEFAULT_HASH_CHUNK_SIZE = ((1024 * 1024 : ℕ) : ℤ) := by decide
  rw [filesMatch, hdefault, sha256File_eq H hsource hsize,
    sha256File_eq H hcopy hsize]
  exact congrArg Except.ok (beq_self_eq_true _)

end FileLayer

open FileLayer in
/-- The file layer loses nothing: the chunks have the given size and make up the
data, a file is read in the same chunks and written from them, and it is hashed
like its contents, whatever the size of the reads. -/
theorem file_layer_lossless (H : Sha256) (d : Bytes) (mss : ℕ)
    (hmss : 1 ≤ mss) :
    ∃ chunks, chunk (.bytesLike d) mss = .ok chunks ∧
      (chunks.length = d.length ⌈/⌉ mss ∧
        (∀ piece ∈ chunks, piece ≠ [] ∧ piece.length ≤ mss) ∧
        ∀ piece ∈ chunks.dropLast, piece.length = mss) ∧
      reassemble chunks = d ∧
      (∀ (fs : FileSystem) path, fs.get? path = some d →
        readFileChunks fs path mss = .ok chunks) ∧
      (∀ (fs : FileSystem) outputPath other,
        (reassembleFile fs chunks outputPath).get? other =
          if other = outputPath then some d else fs.get? other) ∧
      ∀ (fs : FileSystem) path (chunkSize : ℕ), fs.get? path = some d →
        1 ≤ chunkSize →
          sha256File H fs path chunkSize = sha256Hex H (.bytesLike d) := by
  obtain ⟨chunks, hchunk, hcuts⟩ := chunk_cuts d hmss
  refine ⟨chunks, hchunk, ⟨hcuts.length_eq hmss, ?_, hcuts.full⟩, hcuts.flatten,
    ?_, ?_, ?_⟩
  · exact fun piece hpiece => ⟨hcuts.nonempty piece hpiece, hcuts.le piece hpiece⟩
  · exact fun fs path hfile => readFileChunks_eq hfile hmss hcuts
  · intro fs outputPath other
    have hreassemble : reassemble chunks = d := hcuts.flatten
    rw [get?_reassembleFile, hreassemble]
  · exact fun fs path chunkSize hfile hsize => sha256File_eq H hfile hsize

open FileLayer in
/-- A digest object that keeps its bytes, with the digests of the byte strings
that the examples hash: nothing, `b"ab"`, `b"c"` and `b"abc"`. -/
def abcSha256 : Sha256 where
  Digest := Bytes
  sha256 := id
  update := (· ++ ·)
  hexdigest data :=
    if data = [] then
      "e3b0c44298fc1c149afbf4c8996fb92427ae41e4649b934ca495991b7852b855"
    else if data = [97, 98] then
      "fb8e20fc2e4c3f248c60c39bd652f3c1347298bb977b8b4d5903b85055620603"
    else if data = [99] then
      "2e7d2c03a9507ae265ecf5b5356885a53393a2029d241394997265a1a25aefc6"
    else if data = [97, 98, 99] then
      "ba7816bf8f01cfea414140de5dae2223b00361a396177a9cb410ff61f20015ad"
    else ""
  update_sha256 := fun _ _ => rfl

open FileLayer in
/-- Three bytes in chunks of two, hashed from a file byte by byte. -/
theorem file_layer_lossless_abc :
    ∃ chunks, chunk (.bytesLike [97, 98, 99]) (2 : ℕ) = .ok chunks ∧
      chunks.length = 2 ∧ reassemble chunks = [97, 98, 99] ∧
      readFileChunks (Dict.set ∅ "f" [97, 98, 99]) "f" (2 : ℕ) = .ok chunks ∧
      sha256File abcSha256 (Dict.set ∅ "f" [97, 98, 99]) "f" (1 : ℕ) =
        sha256Hex abcSha256 (.bytesLike [97, 98, 99]) := by
  obtain ⟨chunks, hchunk, hpieces, hreassemble, hread, -, hhash⟩ :=
    file_layer_lossless abcSha256 [97, 98, 99] 2 (by decide)
  have hfile : (Dict.set ∅ "f" [97, 98, 99] : FileSystem).get? "f" =
      some [97, 98, 99] := by rw [Dict.get?_set, if_pos rfl]
  have hcount : chunks.length = 2 := hpieces.1
  exact ⟨chunks, hchunk, hcount, hreassemble, hread _ _ hfile,
    hhash _ _ 1 hfile le_rfl⟩

end UdpArq
