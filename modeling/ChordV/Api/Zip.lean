import ChordV.Lib.Buffer
import ChordV.Lib.Crc32

/-!
# Entries of a ZIP file

`readZipEntryData` of `release-center.utils.ts` with all that it calls.  A file is its bytes, and
`inflateRawSync` is a parameter.

* A read outside a buffer is a failure of its own, and a read of a file returns what there is.
* An `Archive` is a ZIP file as it is written: local records anywhere in front of the directory,
  with any fields that the reader does not look at, and a directory in any order.
* `readZipEntryData_inverts` says for which archives reading inverts writing.  The end record is
  found from behind, so that a signature in the comment may hide it.
-/

namespace ChordV.Api.Zip

open Lib Lib.Json Lib.Fallible Lib.Buffer

/-! ## The reader -/

/-- How reading fails. -/
inductive Failure where
  | badRequest (message : String)
  /-- A field outside a buffer is read. -/
  | outOfRange
  /-- `inflateRawSync` throws. -/
  | inflate
deriving DecidableEq, Repr

/-- The configured limits. -/
structure Limits where
  entries : Nat
  entryBytes : Nat
  totalBytes : Nat

/-- `ZipCentralDirectoryEntry`. -/
structure ZipCentralDirectoryEntry where
  name : Text
  compressionMethod : Nat
  crc32 : Nat
  compressedSize : Nat
  uncompressedSize : Nat
  localHeaderOffset : Nat
deriving DecidableEq, Repr

/-- `Buffer.readUInt16LE`. -/
def readUInt16LE (buffer : Bytes) (offset : Nat) : Except Failure Nat :=
  readU16 .outOfRange buffer offset

/-- `Buffer.readUInt32LE`. -/
def readUInt32LE (buffer : Bytes) (offset : Nat) : Except Failure Nat :=
  readU32 .outOfRange buffer offset

/-- What a read of the file returns. -/
def fileRead (file : Bytes) (position length : Nat) : Bytes := (file.drop position).take length

/-- A buffer of zeros that is read into. -/
def readInto (file : Bytes) (position length : Nat) : Bytes :=
  let got := fileRead file position length
  got ++ List.replicate (length - got.length) 0

/-- With slashes only. -/
def normalizeZipEntryName (entry : Text) : Text :=
  entry.map fun c => if c = '\\' then '/' else c

/-- The path would leave the directory, or is empty or absolute. -/
def isUnsafePath (normalized : Text) : Bool :=
  let parts := normalized.splitOn '/'
  normalized.isEmpty || normalized.head? == some '/' ||
    (match normalized with
      | c :: ':' :: '/' :: _ => c.isAlpha
      | _ => false) ||
    parts.any (· == "..".toList) || parts.dropLast.any (· == [])

/-- The path stays within its directory. -/
def assertZipEntryPathSafe (entry : Text) : Except Failure Unit :=
  require (isUnsafePath (normalizeZipEntryName entry) = false)
    (.badRequest ("ZIP 条目路径不安全：" ++ String.ofList entry))

/-- The name is one of a directory. -/
def endsWithSlash (name : Text) : Bool := name.getLast? == some '/'

/-- The offsets below a bound, from the last one on. -/
def findFrom (buffer : Bytes) : Nat → Except Failure (Option Nat)
  | 0 => .ok none
  | offset + 1 => do
    if (← readUInt32LE buffer offset) = 0x06054b50 then return some offset
    else findFrom buffer offset

/-- Where the last signature is, with room for a record behind it. -/
def findEndOfCentralDirectory (buffer : Bytes) : Except Failure (Option Nat) :=
  findFrom buffer (buffer.length + 1 - 22)

/-- One entry of the directory, and the offset behind it. -/
def parseEntry (buffer : Bytes) (offset : Nat) :
    Except Failure (ZipCentralDirectoryEntry × Nat) := do
  require (offset + 46 ≤ buffer.length) (.badRequest "ZIP 文件无效：中央目录条目格式错误。")
  require ((← readUInt32LE buffer offset) = 0x02014b50)
    (.badRequest "ZIP 文件无效：中央目录条目格式错误。")
  let compressionMethod ← readUInt16LE buffer (offset + 10)
  let crc32 ← readUInt32LE buffer (offset + 16)
  let compressedSize ← readUInt32LE buffer (offset + 20)
  let uncompressedSize ← readUInt32LE buffer (offset + 24)
  let fileNameLength ← readUInt16LE buffer (offset + 28)
  let extraLength ← readUInt16LE buffer (offset + 30)
  let commentLength ← readUInt16LE buffer (offset + 32)
  let localHeaderOffset ← readUInt32LE buffer (offset + 42)
  let fileNameStart := offset + 46
  let fileNameEnd := fileNameStart + fileNameLength
  require (fileNameEnd ≤ buffer.length) (.badRequest "ZIP 文件无效：条目名称格式错误。")
  require (compressedSize ≠ 0xffffffff ∧ uncompressedSize ≠ 0xffffffff ∧
      localHeaderOffset ≠ 0xffffffff)
    (.badRequest "发布校验暂不支持 ZIP64 全量替换安装包条目。")
  let name := utf8 ((buffer.drop fileNameStart).take fileNameLength)
  return ({ name, compressionMethod, crc32, compressedSize, uncompressedSize, localHeaderOffset },
    fileNameEnd + extraLength + commentLength)

/-- The entries from an offset on.  An entry has 46 bytes or more, so that the length of the buffer
is enough fuel. -/
def parseFrom (buffer : Bytes) : Nat → Nat → Except Failure (List ZipCentralDirectoryEntry)
  | 0, _ => .ok []
  | fuel + 1, offset =>
    if buffer.length ≤ offset then .ok []
    else do
      let (entry, nextOffset) ← parseEntry buffer offset
      return entry :: (← parseFrom buffer fuel nextOffset)

/-- All entries of the buffer. -/
def parseZipCentralDirectoryEntries (buffer : Bytes) :
    Except Failure (List ZipCentralDirectoryEntry) :=
  parseFrom buffer buffer.length 0

/-- The loop that adds up the sizes. -/
def checkTotals (limits : Limits) : Nat → Nat → List ZipCentralDirectoryEntry → Except Failure Unit
  | _, _, [] => .ok ()
  | totalCompressedSize, totalUncompressedSize, entry :: rest => do
    let totalCompressedSize := totalCompressedSize + entry.compressedSize
    let totalUncompressedSize := totalUncompressedSize + entry.uncompressedSize
    require (totalCompressedSize ≤ limits.totalBytes ∧ totalUncompressedSize ≤ limits.totalBytes)
      (.badRequest "ZIP 解压后超过校验大小限制。")
    checkTotals limits totalCompressedSize totalUncompressedSize rest

/-- The entries of a file. -/
def readZipCentralDirectoryEntries (limits : Limits) (file : Bytes) :
    Except Failure (List ZipCentralDirectoryEntry) := do
  require (22 ≤ file.length) (.badRequest "ZIP 文件过小，缺少有效的中央目录。")
  let tailLength := min file.length 65557
  let tail := readInto file (file.length - tailLength) tailLength
  match ← findEndOfCentralDirectory tail with
  | none => throw (.badRequest "ZIP 文件无效：缺少中央目录结束标记。")
  | some eocdOffsetInTail =>
    let centralDirectorySize ← readUInt32LE tail (eocdOffsetInTail + 12)
    let centralDirectoryOffset ← readUInt32LE tail (eocdOffsetInTail + 16)
    require (centralDirectorySize ≠ 0xffffffff ∧ centralDirectoryOffset ≠ 0xffffffff)
      (.badRequest "发布校验暂不支持 ZIP64 全量替换安装包。")
    require (centralDirectoryOffset + centralDirectorySize ≤ file.length)
      (.badRequest "ZIP 文件无效：中央目录指向文件范围之外。")
    let entries ← parseZipCentralDirectoryEntries
      (readInto file centralDirectoryOffset centralDirectorySize)
    require (entries.length ≤ limits.entries)
      (.badRequest ("ZIP 文件条目过多：" ++ toString entries.length ++ " 个，超过 " ++
        toString limits.entries ++ " 个限制。"))
    checkTotals limits 0 0 entries
    return entries

/-- The table of the CRC-32. -/
def CRC32_TABLE : List (BitVec 32) :=
  (List.range 256).map fun index =>
    (fun value : BitVec 32 =>
      if value &&& 1 ≠ 0 then 0xedb88320 ^^^ (value >>> 1) else value >>> 1)^[8]
        (BitVec.ofNat 32 index)

/-- The CRC-32 by the table. -/
def crc32 (buffer : Bytes) : Nat :=
  let crc := buffer.foldl (fun (crc : BitVec 32) (byte : UInt8) =>
    (crc >>> 8) ^^^
      CRC32_TABLE.getD ((crc ^^^ BitVec.ofNat 32 byte.toNat) &&& 0xff).toNat 0) 0xffffffff
  (crc ^^^ 0xffffffff).toNat

/-- `inflateRawSync`, which may throw. -/
abbrev Inflate := Bytes → Option Bytes

/-- The data of an entry from the bytes in the file. -/
def decompress (inflateRawSync : Inflate) (compressionMethod : Nat) (compressedData : Bytes) :
    Except Failure Bytes :=
  if compressionMethod = 0 then .ok compressedData
  else
    match inflateRawSync compressedData with
    | some data => .ok data
    | none => .error .inflate

/-- The data of an entry, after all checks. -/
def verifyZipEntryData (limits : Limits) (inflateRawSync : Inflate) (file : Bytes)
    (entry : ZipCentralDirectoryEntry) : Except Failure Bytes :=
  let name := String.ofList entry.name
  if endsWithSlash (normalizeZipEntryName entry.name) then .ok []
  else do
    require (entry.compressionMethod = 0 ∨ entry.compressionMethod = 8)
      (.badRequest ("ZIP 条目 " ++ name ++ " 使用了暂不支持的压缩方式：" ++
        toString entry.compressionMethod))
    require (entry.compressedSize ≤ limits.entryBytes ∧ entry.uncompressedSize ≤ limits.entryBytes)
      (.badRequest ("ZIP 条目 " ++ name ++ " 超过单文件校验限制：" ++ toString limits.entryBytes ++
        " 字节。"))
    let localHeader := fileRead file entry.localHeaderOffset 30
    require (localHeader.length = 30)
      (.badRequest ("ZIP 条目 " ++ name ++ " 的本地文件头读取不完整。"))
    require ((← readUInt32LE localHeader 0) = 0x04034b50)
      (.badRequest ("ZIP 条目 " ++ name ++ " 的本地文件头无效。"))
    let localFileNameLength ← readUInt16LE localHeader 26
    let localExtraLength ← readUInt16LE localHeader 28
    let dataOffset := entry.localHeaderOffset + 30 + localFileNameLength + localExtraLength
    require (dataOffset + entry.compressedSize ≤ file.length)
      (.badRequest ("ZIP 条目 " ++ name ++ " 指向文件范围之外。"))
    let compressedData := fileRead file dataOffset entry.compressedSize
    require (compressedData.length = entry.compressedSize)
      (.badRequest ("ZIP 条目 " ++ name ++ " 数据不完整。"))
    let data ← decompress inflateRawSync entry.compressionMethod compressedData
    require (data.length = entry.uncompressedSize)
      (.badRequest ("ZIP 条目 " ++ name ++ " 的解压大小不一致。"))
    require (crc32 data = entry.crc32) (.badRequest ("ZIP 条目 " ++ name ++ " 未通过 CRC 校验。"))
    return data

/-- The data of the entry with this name. -/
def readZipEntryData (limits : Limits) (inflateRawSync : Inflate) (file : Bytes)
    (entryName : Text) : Except Failure Bytes := do
  assertZipEntryPathSafe entryName
  let normalizedTarget := normalizeZipEntryName entryName
  require (normalizedTarget ≠ [] ∧ endsWithSlash normalizedTarget = false)
    (.badRequest "ZIP 条目名称必须指向文件。")
  let entries ← readZipCentralDirectoryEntries limits file
  match entries.find? (fun item => normalizeZipEntryName item.name == normalizedTarget) with
  | none => throw (.badRequest ("ZIP 中找不到指定文件：" ++ String.ofList entryName))
  | some entry =>
    assertZipEntryPathSafe entry.name
    verifyZipEntryData limits inflateRawSync file entry

/-! ## Archives -/

/-- An entry as it is written, with its data before and after compression. -/
structure ZipEntry where
  name : Bytes
  compressionMethod : Nat
  data : Bytes
  compressed : Bytes
  localHeaderOffset : Nat
  localExtra : Bytes
  centralExtra : Bytes
  comment : Bytes
  versionMadeBy : Nat
  versionNeeded : Nat
  flags : Nat
  time : Nat
  date : Nat
  internalAttributes : Nat
  externalAttributes : Nat
  /-- The local record of a stream has zeros here, and the values behind the data. -/
  localCrc32 : Nat
  localCompressedSize : Nat
  localUncompressedSize : Nat

namespace ZipEntry

/-- The fixed part of a local record. -/
def localHeader (e : ZipEntry) : Bytes :=
  u32 0x04034b50 ++ u16 e.versionNeeded ++ u16 e.flags ++ u16 e.compressionMethod ++ u16 e.time ++
    u16 e.date ++ u32 e.localCrc32 ++ u32 e.localCompressedSize ++ u32 e.localUncompressedSize ++
    u16 e.name.length ++ u16 e.localExtra.length

/-- What stands in front of the directory for an entry. -/
def localRecord (e : ZipEntry) : Bytes := e.localHeader ++ e.name ++ e.localExtra ++ e.compressed

/-- The fixed part of an entry of the directory. -/
def centralHeader (e : ZipEntry) : Bytes :=
  u32 0x02014b50 ++ u16 e.versionMadeBy ++ u16 e.versionNeeded ++ u16 e.flags ++
    u16 e.compressionMethod ++ u16 e.time ++ u16 e.date ++ u32 (Crc32.checksum e.data).toNat ++
    u32 e.compressed.length ++ u32 e.data.length ++ u16 e.name.length ++
    u16 e.centralExtra.length ++ u16 e.comment.length ++ u16 0 ++ u16 e.internalAttributes ++
    u32 e.externalAttributes ++ u32 e.localHeaderOffset

/-- What stands in the directory for an entry. -/
def centralRecord (e : ZipEntry) : Bytes := e.centralHeader ++ e.name ++ e.centralExtra ++ e.comment

/-- The entry is stored or deflated and not encrypted, and its fields are not those of ZIP64. -/
structure WellFormed (inflate : Inflate) (e : ZipEntry) : Prop where
  compression : e.compressionMethod = 0 ∧ e.compressed = e.data ∨
    e.compressionMethod = 8 ∧ inflate e.compressed = some e.data
  unencrypted : e.flags % 2 = 0
  name : e.name.length < 2 ^ 16
  localExtra : e.localExtra.length < 2 ^ 16
  centralExtra : e.centralExtra.length < 2 ^ 16
  comment : e.comment.length < 2 ^ 16
  compressed : e.compressed.length < 0xffffffff
  data : e.data.length < 0xffffffff
  offset : e.localHeaderOffset < 0xffffffff

/-- The name as the reader compares it. -/
def normalizedName (e : ZipEntry) : Text := normalizeZipEntryName (utf8 e.name)

end ZipEntry

/-- The bytes in front of the directory, the entries in its order, and the comment. -/
structure Archive where
  body : Bytes
  entries : List ZipEntry
  comment : Bytes

namespace Archive

/-- The directory. -/
def directory (a : Archive) : Bytes := a.entries.flatMap ZipEntry.centralRecord

/-- The end record, without the comment. -/
def endRecord (a : Archive) : Bytes :=
  u32 0x06054b50 ++ u16 0 ++ u16 0 ++ u16 a.entries.length ++ u16 a.entries.length ++
    u32 a.directory.length ++ u32 a.body.length ++ u16 a.comment.length

/-- The file. -/
def bytes (a : Archive) : Bytes := a.body ++ a.directory ++ (a.endRecord ++ a.comment)

/-- The entries are sound, and the records are where they are said to be. -/
structure WellFormed (inflate : Inflate) (a : Archive) : Prop where
  entry : ∀ e ∈ a.entries, e.WellFormed inflate
  /-- The local record of an entry is where its offset says. -/
  located : ∀ e ∈ a.entries, ∃ before behind,
    a.body = before ++ e.localRecord ++ behind ∧ before.length = e.localHeaderOffset
  count : a.entries.length < 2 ^ 16
  directory : a.directory.length < 0xffffffff
  body : a.body.length < 0xffffffff
  comment : a.comment.length < 2 ^ 16

/-- The archive is within the limits of the reader. -/
structure WithinLimits (limits : Limits) (a : Archive) : Prop where
  count : a.entries.length ≤ limits.entries
  compressed : (a.entries.map (·.compressed.length)).sum ≤ limits.totalBytes
  data : (a.entries.map (·.data.length)).sum ≤ limits.totalBytes
  entry : ∀ e ∈ a.entries, e.compressed.length ≤ limits.entryBytes ∧
    e.data.length ≤ limits.entryBytes

/-- A file with a safe name that no other entry has. -/
structure IsFile (a : Archive) (e : ZipEntry) : Prop where
  mem : e ∈ a.entries
  isSafe : isUnsafePath e.normalizedName = false
  notDirectory : endsWithSlash e.normalizedName = false
  unique : ∀ e' ∈ a.entries, e'.normalizedName = e.normalizedName → e' = e

/-- The last signature in the end record and the comment that has 22 bytes left is followed by the
size and the offset of the directory. -/
def EndRecordFound (a : Archive) : Prop :=
  ∃ offset, offset ≤ a.comment.length ∧
    readUInt32LE (a.endRecord ++ a.comment) offset = .ok 0x06054b50 ∧
    (∀ later, offset < later → later ≤ a.comment.length →
      readUInt32LE (a.endRecord ++ a.comment) later ≠ .ok 0x06054b50) ∧
    readUInt32LE (a.endRecord ++ a.comment) (offset + 12) = .ok a.directory.length ∧
    readUInt32LE (a.endRecord ++ a.comment) (offset + 16) = .ok a.body.length

end Archive

/-! ## The checksum -/

/-- The step of the table is the step of the checksum. -/
theorem tableBit_eq (value : BitVec 32) :
    (if value &&& 1 ≠ 0 then 0xedb88320 ^^^ (value >>> 1) else value >>> 1) =
      Crc32.shiftBit value := by
  have hbit : (value &&& 1 ≠ 0) ↔ value.getLsbD 0 = true := by
    have hone : value &&& 1#32 = BitVec.setWidth 32 (BitVec.ofBool (value.getLsbD 0)) :=
      BitVec.and_one_eq_setWidth_ofBool_getLsbD
    rw [show (1 : BitVec 32) = 1#32 from rfl, hone]
    cases value.getLsbD 0 <;> decide
  simp only [hbit, Crc32.shiftBit]
  split
  · exact BitVec.xor_comm _ _
  · exact (BitVec.xor_zero).symm

theorem getD_table {i : Nat} (h : i < 256) :
    CRC32_TABLE.getD i 0 = Crc32.shiftByte (BitVec.ofNat 32 i) := by
  have hget : CRC32_TABLE[i]? = some (Crc32.shiftByte (BitVec.ofNat 32 i)) := by
    simp only [CRC32_TABLE, tableBit_eq]
    rw [List.getElem?_map, List.getElem?_range h]
    rfl
  rw [List.getD_eq_getElem?_getD, hget, Option.getD_some]

/-- The table computes the checksum. -/
theorem crc32_eq (data : Bytes) : crc32 data = (Crc32.checksum data).toNat := by
  have hstep : ∀ (crc : BitVec 32) (byte : UInt8), (crc >>> 8) ^^^
      CRC32_TABLE.getD ((crc ^^^ BitVec.ofNat 32 byte.toNat) &&& 0xff).toNat 0 =
        Crc32.update crc byte := by
    intro crc byte
    have hlt : ((crc ^^^ BitVec.ofNat 32 byte.toNat) &&& 0xff).toNat < 256 := by
      rw [BitVec.toNat_and]
      exact Nat.lt_succ_of_le Nat.and_le_right
    rw [getD_table hlt, BitVec.ofNat_toNat, BitVec.setWidth_eq, Crc32.update_eq]
    rfl
  simp only [crc32, Crc32.checksum, hstep]

/-! ## The directory -/

/-- What the directory says of an entry. -/
def ZipEntry.directoryEntry (e : ZipEntry) : ZipCentralDirectoryEntry :=
  { name := utf8 e.name
    compressionMethod := e.compressionMethod
    crc32 := (Crc32.checksum e.data).toNat
    compressedSize := e.compressed.length
    uncompressedSize := e.data.length
    localHeaderOffset := e.localHeaderOffset }

variable {inflate : Inflate} {e : ZipEntry}

@[simp] theorem length_centralHeader (e : ZipEntry) : e.centralHeader.length = 46 := by
  simp only [ZipEntry.centralHeader, List.length_append, length_u16, length_u32]

@[simp] theorem length_localHeader (e : ZipEntry) : e.localHeader.length = 30 := by
  simp only [ZipEntry.localHeader, List.length_append, length_u16, length_u32]

theorem length_centralRecord (e : ZipEntry) : e.centralRecord.length =
    46 + e.name.length + e.centralExtra.length + e.comment.length := by
  simp only [ZipEntry.centralRecord, List.length_append, length_centralHeader]

theorem readUInt32LE_front {front buffer : Bytes} :
    readUInt32LE (front ++ buffer) front.length = readUInt32LE buffer 0 :=
  readU32_append front 0

theorem ZipEntry.WellFormed.method_lt (h : e.WellFormed inflate) :
    e.compressionMethod < 2 ^ 16 := by
  obtain ⟨hmethod, -⟩ | ⟨hmethod, -⟩ := h.compression
  · rw [hmethod]
    decide
  · rw [hmethod]
    decide

/-- The fields of a directory record. -/
theorem fields_of_centralRecord (h : e.WellFormed inflate) (front behind : Bytes) :
    let buffer := front ++ (e.centralRecord ++ behind)
    readUInt32LE buffer front.length = .ok 0x02014b50 ∧
      readUInt16LE buffer (front.length + 10) = .ok e.compressionMethod ∧
      readUInt32LE buffer (front.length + 16) = .ok (Crc32.checksum e.data).toNat ∧
      readUInt32LE buffer (front.length + 20) = .ok e.compressed.length ∧
      readUInt32LE buffer (front.length + 24) = .ok e.data.length ∧
      readUInt16LE buffer (front.length + 28) = .ok e.name.length ∧
      readUInt16LE buffer (front.length + 30) = .ok e.centralExtra.length ∧
      readUInt16LE buffer (front.length + 32) = .ok e.comment.length ∧
      readUInt32LE buffer (front.length + 42) = .ok e.localHeaderOffset := by
  have hcompressed := h.compressed
  have hdata := h.data
  have hoffset := h.offset
  simp only [readUInt32LE_front]
  simp only [readUInt16LE, readUInt32LE, readU16_append, readU32_append, ZipEntry.centralRecord,
    ZipEntry.centralHeader, List.append_assoc, readU16_behind_u16, readU16_behind_u32,
    readU32_behind_u16, readU32_behind_u32]
  exact ⟨readU32_u32 (by decide) _, readU16_u16 h.method_lt _, readU32_u32 (BitVec.isLt _) _,
    readU32_u32 (by omega) _, readU32_u32 (by omega) _, readU16_u16 h.name _,
    readU16_u16 h.centralExtra _, readU16_u16 h.comment _, readU32_u32 (by omega) _⟩

/-- A record of the directory is read back. -/
theorem parseEntry_centralRecord (h : e.WellFormed inflate) (front behind : Bytes) :
    parseEntry (front ++ (e.centralRecord ++ behind)) front.length =
      .ok (e.directoryEntry, front.length + e.centralRecord.length) := by
  have hcompressed := h.compressed
  have hdata := h.data
  have hoffset := h.offset
  have hlen : (front ++ (e.centralRecord ++ behind)).length =
      front.length + (e.centralRecord.length + behind.length) := by
    rw [List.length_append, List.length_append]
  have hrecord := length_centralRecord e
  have hslice : ((front ++ (e.centralRecord ++ behind)).drop (front.length + 46)).take
      e.name.length = e.name := by
    rw [drop_append_add]
    simp only [ZipEntry.centralRecord, List.append_assoc]
    rw [← length_centralHeader e, List.drop_left, List.take_left]
  obtain ⟨hsignature, hmethod, hsum, hcompressedSize, huncompressedSize, hname, hextra, hcomment,
    hlocal⟩ := fields_of_centralRecord h front behind
  simp only [parseEntry, hsignature, hmethod, hsum, hcompressedSize, huncompressedSize, hname,
    hextra, hcomment, hlocal, hslice, ok_bind, require]
  rw [if_pos (by omega), if_pos trivial, if_pos (by omega), if_pos ⟨by omega, by omega, by omega⟩]
  simp only [ok_bind, pure_eq_ok, Except.ok.injEq, Prod.mk.injEq]
  refine ⟨rfl, ?_⟩
  rw [length_centralRecord]
  omega

/-- The directory is read back, one record after the other. -/
theorem parseFrom_directory {entries : List ZipEntry} (h : ∀ e ∈ entries, e.WellFormed inflate)
    (front : Bytes) {fuel : Nat} (hfuel : (entries.flatMap ZipEntry.centralRecord).length ≤ fuel) :
    parseFrom (front ++ entries.flatMap ZipEntry.centralRecord) fuel front.length =
      .ok (entries.map ZipEntry.directoryEntry) := by
  induction entries generalizing front fuel with
  | nil =>
    cases fuel with
    | zero => rfl
    | succ fuel => simp [parseFrom]
  | cons e rest ih =>
    have hrecord := length_centralRecord e
    rw [List.flatMap_cons, List.length_append] at hfuel
    cases fuel with
    | zero => omega
    | succ fuel =>
      have hfuel' : (rest.flatMap ZipEntry.centralRecord).length ≤ fuel := by omega
      have hrest := ih (fun e' he' => h e' (List.mem_cons_of_mem _ he')) (front ++ e.centralRecord)
        hfuel'
      rw [List.append_assoc, List.length_append] at hrest
      rw [List.flatMap_cons, parseFrom,
        if_neg (by rw [List.length_append, List.length_append]; omega),
        parseEntry_centralRecord (h e List.mem_cons_self)]
      simp only [ok_bind, hrest]
      rfl

theorem parse_directory {a : Archive} (h : a.WellFormed inflate) :
    parseZipCentralDirectoryEntries a.directory = .ok (a.entries.map ZipEntry.directoryEntry) :=
  parseFrom_directory h.entry [] (le_refl _)

/-- A directory within the limit passes the loop. -/
theorem checkTotals_eq {limits : Limits} {entries : List ZipCentralDirectoryEntry}
    {compressed uncompressed : Nat}
    (hcompressed : compressed + (entries.map (·.compressedSize)).sum ≤ limits.totalBytes)
    (huncompressed : uncompressed + (entries.map (·.uncompressedSize)).sum ≤ limits.totalBytes) :
    checkTotals limits compressed uncompressed entries = .ok () := by
  induction entries generalizing compressed uncompressed with
  | nil => rfl
  | cons entry rest ih =>
    rw [List.map_cons, List.sum_cons] at hcompressed huncompressed
    rw [checkTotals, require, if_pos ⟨by omega, by omega⟩, ok_bind]
    exact ih (by omega) (by omega)

/-! ## The end record -/

theorem findFrom_isOk {buffer : Bytes} {bound : Nat} (h : bound + 3 ≤ buffer.length) :
    ∃ found, findFrom buffer bound = .ok found ∧
      ∀ offset ∈ found, offset < bound ∧ readUInt32LE buffer offset = .ok 0x06054b50 := by
  induction bound with
  | zero => exact ⟨none, rfl, by simp⟩
  | succ offset ih =>
    have hinside : offset + 4 ≤ buffer.length := by omega
    obtain ⟨n, hn⟩ := readU32_isOk Failure.outOfRange hinside
    obtain ⟨found, hfound, hmem⟩ := ih (by omega)
    rw [findFrom, readUInt32LE, hn, ok_bind]
    split
    next hsignature =>
      refine ⟨some offset, rfl, ?_⟩
      rintro offset' ⟨⟩
      exact ⟨Nat.lt_succ_self offset, by rw [readUInt32LE, hn, hsignature]⟩
    · exact ⟨found, hfound, fun offset' h' => ⟨(hmem offset' h').1.trans (Nat.lt_succ_self _),
        (hmem offset' h').2⟩⟩

/-- What is in front does not matter once a signature is found behind it. -/
theorem findFrom_append {front buffer : Bytes} {bound offset : Nat}
    (h : findFrom buffer bound = .ok (some offset)) :
    findFrom (front ++ buffer) (front.length + bound) = .ok (some (front.length + offset)) := by
  induction bound with
  | zero => cases h
  | succ bound ih =>
    rw [findFrom] at h
    rw [← Nat.add_assoc, findFrom, readUInt32LE, readU32_append]
    obtain ⟨n, hn, hif⟩ := bind_eq_ok.1 h
    rw [readUInt32LE] at hn
    rw [hn, ok_bind]
    split at hif
    next hsignature =>
      cases hif
      rw [if_pos hsignature]
      rfl
    next hsignature =>
      rw [if_neg hsignature]
      exact ih hif

theorem findEndOfCentralDirectory_append (front : Bytes) {buffer : Bytes} {offset : Nat}
    (hlen : 22 ≤ buffer.length) (h : findEndOfCentralDirectory buffer = .ok (some offset)) :
    findEndOfCentralDirectory (front ++ buffer) = .ok (some (front.length + offset)) := by
  have hbound : (front ++ buffer).length + 1 - 22 = front.length + (buffer.length + 1 - 22) := by
    rw [List.length_append]
    omega
  rw [findEndOfCentralDirectory, hbound]
  exact findFrom_append h

theorem readInto_eq {file : Bytes} {position length : Nat} (h : position + length ≤ file.length) :
    readInto file position length = (file.drop position).take length := by
  have hlen : ((file.drop position).take length).length = length := by
    rw [List.length_take, List.length_drop]
    omega
  simp only [readInto, fileRead, hlen, Nat.sub_self, List.replicate_zero, List.append_nil]

@[simp] theorem length_endRecord (a : Archive) : a.endRecord.length = 22 := by
  simp only [Archive.endRecord, List.length_append, length_u16, length_u32]

/-- A signature is found if there is none behind it. -/
theorem findFrom_last {buffer : Bytes} {bound offset : Nat} (hlt : offset < bound)
    (hlen : bound + 3 ≤ buffer.length) (hfound : readUInt32LE buffer offset = .ok 0x06054b50)
    (hlater : ∀ later, offset < later → later < bound →
      readUInt32LE buffer later ≠ .ok 0x06054b50) : findFrom buffer bound = .ok (some offset) := by
  induction bound with
  | zero => omega
  | succ bound ih =>
    rw [findFrom]
    obtain rfl | hbound := Nat.eq_or_lt_of_le (Nat.le_of_lt_succ hlt)
    · rw [hfound, ok_bind, if_pos rfl]
      rfl
    · have hother := hlater bound hbound (Nat.lt_succ_self bound)
      have hinside : bound + 4 ≤ buffer.length := by omega
      obtain ⟨n, hn⟩ := readU32_isOk Failure.outOfRange hinside
      rw [readUInt32LE, hn] at hother
      rw [readUInt32LE, hn, ok_bind, if_neg fun heq => hother (by rw [heq])]
      exact ih hbound (by omega) fun later h h' => hlater later h (by omega)

/-- The end record is found if no signature is behind it, with a comment or without one. -/
theorem endRecordFound_of_plain {a : Archive} (h : a.WellFormed inflate)
    (hplain : ∀ offset, 0 < offset → offset ≤ a.comment.length →
      readUInt32LE (a.endRecord ++ a.comment) offset ≠ .ok 0x06054b50) : a.EndRecordFound := by
  have hdirectory := h.directory
  have hbody := h.body
  have hfields : readUInt32LE (a.endRecord ++ a.comment) 0 = .ok 0x06054b50 ∧
      readUInt32LE (a.endRecord ++ a.comment) 12 = .ok a.directory.length ∧
      readUInt32LE (a.endRecord ++ a.comment) 16 = .ok a.body.length := by
    simp only [readUInt32LE, Archive.endRecord, List.append_assoc, readU32_behind_u16,
      readU32_behind_u32]
    exact ⟨readU32_u32 (by decide) _, readU32_u32 (by omega) _, readU32_u32 (by omega) _⟩
  exact ⟨0, Nat.zero_le _, hfields.1, hplain, hfields.2⟩

/-- The directory of an archive is read, if its end record is found. -/
theorem readZipCentralDirectoryEntries_eq {limits : Limits} {a : Archive} (h : a.WellFormed inflate)
    (hlimits : a.WithinLimits limits) (hfound : a.EndRecordFound) :
    readZipCentralDirectoryEntries limits a.bytes =
      .ok (a.entries.map ZipEntry.directoryEntry) := by
  obtain ⟨offset, hle, hsignature, hlater, hsize, hoffset⟩ := hfound
  have hlen : (a.endRecord ++ a.comment).length = 22 + a.comment.length := by
    rw [List.length_append, length_endRecord]
  have hfind : findEndOfCentralDirectory (a.endRecord ++ a.comment) = .ok (some offset) := by
    rw [findEndOfCentralDirectory, hlen]
    exact findFrom_last (by omega) (by omega) hsignature fun later h h' =>
      hlater later h (by omega)
  have hdirectory := h.directory
  have hbody := h.body
  have hcomment := h.comment
  have hbytes : a.bytes.length = a.body.length + a.directory.length + (22 + a.comment.length) := by
    simp only [Archive.bytes, List.length_append, length_endRecord]
  -- The tail ends with the end record and the comment.
  obtain ⟨front, hfront⟩ : ∃ front, readInto a.bytes (a.bytes.length - min a.bytes.length 65557)
      (min a.bytes.length 65557) = front ++ (a.endRecord ++ a.comment) := by
    have hle : a.bytes.length - min a.bytes.length 65557 ≤ (a.body ++ a.directory).length := by
      rw [List.length_append]
      omega
    rw [readInto_eq (by omega), List.take_of_length_le (by rw [List.length_drop]; omega)]
    generalize a.bytes.length - min a.bytes.length 65557 = start at hle
    exact ⟨(a.body ++ a.directory).drop start, List.drop_append_of_le_length hle⟩
  have hread : readInto a.bytes a.body.length a.directory.length = a.directory := by
    rw [readInto_eq (by omega), Archive.bytes, List.append_assoc, List.drop_left, List.take_left]
  have htotals : checkTotals limits 0 0 (a.entries.map ZipEntry.directoryEntry) = .ok () := by
    refine checkTotals_eq ?_ ?_
    · rw [Nat.zero_add, List.map_map]
      exact hlimits.compressed
    · rw [Nat.zero_add, List.map_map]
      exact hlimits.data
  have hfind' := findEndOfCentralDirectory_append front (by omega) hfind
  have hsize' : readUInt32LE (front ++ (a.endRecord ++ a.comment)) (front.length + offset + 12) =
      .ok a.directory.length := by
    rw [Nat.add_assoc, readUInt32LE, readU32_append]
    exact hsize
  have hoffset' : readUInt32LE (front ++ (a.endRecord ++ a.comment)) (front.length + offset + 16) =
      .ok a.body.length := by
    rw [Nat.add_assoc, readUInt32LE, readU32_append]
    exact hoffset
  simp only [readZipCentralDirectoryEntries, hfront, hfind', hsize', hoffset', hread, ok_bind,
    parse_directory h, List.length_map, require, htotals, pure_eq_ok]
  rw [if_pos (by omega), if_pos ⟨by omega, by omega⟩, if_pos (by omega), if_pos hlimits.count]
  rfl

/-! ## The data of an entry -/

/-- The fields of a local header. -/
theorem fields_of_localHeader (h : e.WellFormed inflate) :
    readUInt32LE e.localHeader 0 = .ok 0x04034b50 ∧
      readUInt16LE e.localHeader 26 = .ok e.name.length ∧
      readUInt16LE e.localHeader 28 = .ok e.localExtra.length := by
  rw [← List.append_nil e.localHeader]
  simp only [readUInt16LE, readUInt32LE, ZipEntry.localHeader, List.append_assoc,
    readU16_behind_u16, readU16_behind_u32]
  exact ⟨readU32_u32 (by decide) _, readU16_u16 h.name _, readU16_u16 h.localExtra _⟩

/-- An entry that passes every check is read. -/
theorem verifyZipEntryData_ok {limits : Limits} {file header compressed data : Bytes}
    {entry : ZipCentralDirectoryEntry} {nameLength extraLength : Nat}
    (hfile : endsWithSlash (normalizeZipEntryName entry.name) = false)
    (hmethod : entry.compressionMethod = 0 ∨ entry.compressionMethod = 8)
    (hlimits : entry.compressedSize ≤ limits.entryBytes ∧
      entry.uncompressedSize ≤ limits.entryBytes)
    (hheader : fileRead file entry.localHeaderOffset 30 = header) (hlength : header.length = 30)
    (hsignature : readUInt32LE header 0 = .ok 0x04034b50)
    (hname : readUInt16LE header 26 = .ok nameLength)
    (hextra : readUInt16LE header 28 = .ok extraLength)
    (hinside : entry.localHeaderOffset + 30 + nameLength + extraLength + entry.compressedSize ≤
      file.length)
    (hcompressed : fileRead file (entry.localHeaderOffset + 30 + nameLength + extraLength)
      entry.compressedSize = compressed) (hwhole : compressed.length = entry.compressedSize)
    (hdata : decompress inflate entry.compressionMethod compressed = .ok data)
    (hsize : data.length = entry.uncompressedSize) (hcrc : crc32 data = entry.crc32) :
    verifyZipEntryData limits inflate file entry = .ok data := by
  rw [verifyZipEntryData, hfile, if_neg Bool.false_ne_true, require_bind hmethod,
    require_bind hlimits]
  dsimp only
  rw [hheader, require_bind hlength, hsignature, ok_bind, require_bind rfl, hname, ok_bind, hextra,
    ok_bind, require_bind hinside, hcompressed, require_bind hwhole, hdata, ok_bind,
    require_bind hsize, require_bind hcrc, pure_eq_ok]

theorem verifyZipEntryData_eq {limits : Limits} (h : e.WellFormed inflate)
    (hlimits : e.compressed.length ≤ limits.entryBytes ∧ e.data.length ≤ limits.entryBytes)
    (hfile : endsWithSlash e.normalizedName = false) {before : Bytes}
    (hbefore : before.length = e.localHeaderOffset) (behind : Bytes) :
    verifyZipEntryData limits inflate (before ++ (e.localRecord ++ behind)) e.directoryEntry =
      .ok e.data := by
  have hheader : fileRead (before ++ (e.localRecord ++ behind)) e.localHeaderOffset 30 =
      e.localHeader := by
    simp only [fileRead, ZipEntry.localRecord, List.append_assoc]
    rw [← hbefore, List.drop_left, ← length_localHeader e, List.take_left]
  have hdata : fileRead (before ++ (e.localRecord ++ behind))
      (e.localHeaderOffset + 30 + e.name.length + e.localExtra.length) e.compressed.length =
        e.compressed := by
    have hfront : before ++ (e.localRecord ++ behind) =
        (before ++ e.localHeader ++ e.name ++ e.localExtra) ++ (e.compressed ++ behind) := by
      simp only [ZipEntry.localRecord, List.append_assoc]
    have hlen : (before ++ e.localHeader ++ e.name ++ e.localExtra).length =
        e.localHeaderOffset + 30 + e.name.length + e.localExtra.length := by
      simp only [List.length_append, length_localHeader, hbefore]
    rw [fileRead, hfront, ← hlen, List.drop_left, List.take_left]
  have hinside : e.localHeaderOffset + 30 + e.name.length + e.localExtra.length +
      e.compressed.length ≤ (before ++ (e.localRecord ++ behind)).length := by
    simp only [ZipEntry.localRecord, List.length_append, length_localHeader, hbefore]
    omega
  obtain ⟨hsignature, hname, hextra⟩ := fields_of_localHeader h
  have hmethod : e.compressionMethod = 0 ∨ e.compressionMethod = 8 :=
    h.compression.imp And.left And.left
  have hinflate : decompress inflate e.compressionMethod e.compressed = .ok e.data := by
    unfold decompress
    obtain ⟨hstored, heq⟩ | ⟨hdeflated, heq⟩ := h.compression
    · rw [if_pos hstored, heq]
    · rw [if_neg (by omega), heq]
  exact verifyZipEntryData_ok hfile hmethod hlimits hheader (length_localHeader e) hsignature hname
    hextra hinside hdata rfl hinflate rfl (crc32_eq e.data)

/-- **Reading inverts writing,** if the end record is found. -/
theorem readZipEntryData_eq {limits : Limits} {a : Archive} (h : a.WellFormed inflate)
    (hlimits : a.WithinLimits limits) (hfile : a.IsFile e) {entryName : Text}
    (hname : normalizeZipEntryName entryName = e.normalizedName) (hfound : a.EndRecordFound) :
    readZipEntryData limits inflate a.bytes entryName = .ok e.data := by
  have hne : e.normalizedName ≠ [] := by
    intro hnil
    have hsafe := hfile.isSafe
    rw [hnil] at hsafe
    cases hsafe
  have hfind : (a.entries.map ZipEntry.directoryEntry).find?
      (fun item => normalizeZipEntryName item.name == e.normalizedName) =
        some e.directoryEntry := by
    rw [List.find?_map, Option.map_eq_some_iff]
    cases hfind : a.entries.find?
        ((fun item => normalizeZipEntryName item.name == e.normalizedName) ∘
          ZipEntry.directoryEntry) with
    | none =>
      have hnone := List.find?_eq_none.1 hfind e hfile.mem
      exact absurd (beq_self_eq_true e.normalizedName) hnone
    | some e' =>
      have hbeq := List.find?_some hfind
      have hsame : e'.normalizedName = e.normalizedName := beq_iff_eq.1 hbeq
      exact ⟨e', rfl, by rw [hfile.unique e' (List.mem_of_find?_eq_some hfind) hsame]⟩
  obtain ⟨before, behind, hbody, hbefore⟩ := h.located e hfile.mem
  have hbytes : a.bytes = before ++ (e.localRecord ++ (behind ++ a.directory ++
      (a.endRecord ++ a.comment))) := by
    simp only [Archive.bytes, hbody, List.append_assoc]
  have hverify := verifyZipEntryData_eq (h.entry e hfile.mem) (hlimits.entry e hfile.mem)
    hfile.notDirectory hbefore (behind ++ a.directory ++ (a.endRecord ++ a.comment))
  rw [← hbytes] at hverify
  have hsafe : isUnsafePath (normalizeZipEntryName e.directoryEntry.name) = false := hfile.isSafe
  simp only [readZipEntryData, assertZipEntryPathSafe, hname, hfile.isSafe, hne, hfile.notDirectory,
    require, ok_bind, readZipCentralDirectoryEntries_eq h hlimits hfound, hfind, hsafe, hverify,
    if_true, ne_eq, not_false_eq_true, and_self]

/-! ## Any bytes -/

/-- A computation does not read outside a buffer. -/
def Inside {α : Type} (x : Except Failure α) : Prop := x ≠ .error .outOfRange

variable {α β : Type}

theorem inside_ok (a : α) : Inside (.ok a : Except Failure α) := by
  intro h
  cases h

theorem inside_badRequest (message : String) :
    Inside (.error (.badRequest message) : Except Failure α) := by
  intro h
  cases h

theorem inside_require (c : Prop) [Decidable c] (message : String) :
    Inside (require c (Failure.badRequest message)) := by
  unfold require
  split
  · exact inside_ok ()
  · exact inside_badRequest message

theorem inside_bind {x : Except Failure α} {f : α → Except Failure β} (hx : Inside x)
    (hf : ∀ a, x = .ok a → Inside (f a)) : Inside (x >>= f) := by
  cases x with
  | ok a => exact hf a rfl
  | error failure =>
    intro h
    cases h
    exact hx rfl

/-- A check that goes on. -/
theorem inside_require_bind {c : Prop} [Decidable c] {message : String}
    {f : Unit → Except Failure β}
    (hf : c → Inside (f ())) : Inside (require c (Failure.badRequest message) >>= f) :=
  inside_bind (inside_require c message) fun _ hc => hf (require_eq_ok.1 hc)

theorem inside_readUInt16LE {buffer : Bytes} {offset : Nat} (h : offset + 2 ≤ buffer.length) :
    Inside (readUInt16LE buffer offset) := by
  obtain ⟨n, hn⟩ := readU16_isOk Failure.outOfRange h
  rw [readUInt16LE, hn]
  exact inside_ok n

theorem inside_readUInt32LE {buffer : Bytes} {offset : Nat} (h : offset + 4 ≤ buffer.length) :
    Inside (readUInt32LE buffer offset) := by
  obtain ⟨n, hn⟩ := readU32_isOk Failure.outOfRange h
  rw [readUInt32LE, hn]
  exact inside_ok n

theorem inside_parseEntry (buffer : Bytes) (offset : Nat) : Inside (parseEntry buffer offset) := by
  refine inside_require_bind fun hlen => ?_
  refine inside_bind (inside_readUInt32LE (by omega)) fun signature _ => ?_
  refine inside_require_bind fun _ => ?_
  refine inside_bind (inside_readUInt16LE (by omega)) fun compressionMethod _ => ?_
  refine inside_bind (inside_readUInt32LE (by omega)) fun crc32 _ => ?_
  refine inside_bind (inside_readUInt32LE (by omega)) fun compressedSize _ => ?_
  refine inside_bind (inside_readUInt32LE (by omega)) fun uncompressedSize _ => ?_
  refine inside_bind (inside_readUInt16LE (by omega)) fun fileNameLength _ => ?_
  refine inside_bind (inside_readUInt16LE (by omega)) fun extraLength _ => ?_
  refine inside_bind (inside_readUInt16LE (by omega)) fun commentLength _ => ?_
  refine inside_bind (inside_readUInt32LE (by omega)) fun localHeaderOffset _ => ?_
  refine inside_require_bind fun _ => ?_
  exact inside_require_bind fun _ => inside_ok _

theorem inside_parseFrom (buffer : Bytes) (fuel offset : Nat) :
    Inside (parseFrom buffer fuel offset) := by
  induction fuel generalizing offset with
  | zero => exact inside_ok []
  | succ fuel ih =>
    rw [parseFrom]
    split
    · exact inside_ok []
    · refine inside_bind (inside_parseEntry buffer offset) fun parsed _ => ?_
      exact inside_bind (ih parsed.2) fun rest _ => inside_ok _

theorem inside_checkTotals (limits : Limits) (compressed uncompressed : Nat)
    (entries : List ZipCentralDirectoryEntry) :
    Inside (checkTotals limits compressed uncompressed entries) := by
  induction entries generalizing compressed uncompressed with
  | nil => exact inside_ok ()
  | cons entry rest ih => exact inside_require_bind fun _ => ih _ _

theorem length_readInto (file : Bytes) (position length : Nat) :
    (readInto file position length).length = length := by
  have hle : (fileRead file position length).length ≤ length := List.length_take_le _ _
  simp only [readInto, List.length_append, List.length_replicate]
  omega

theorem inside_readZipCentralDirectoryEntries (limits : Limits) (file : Bytes) :
    Inside (readZipCentralDirectoryEntries limits file) := by
  refine inside_require_bind fun hlen => ?_
  dsimp only
  have htail := length_readInto file (file.length - min file.length 65557) (min file.length 65557)
  generalize
    readInto file (file.length - min file.length 65557) (min file.length 65557) = tail at htail
  have hbound : tail.length + 1 - 22 + 3 ≤ tail.length := by omega
  obtain ⟨found, hfound, hmem⟩ := findFrom_isOk hbound
  rw [findEndOfCentralDirectory, hfound, ok_bind]
  cases found with
  | none => exact inside_badRequest _
  | some offset =>
    obtain ⟨hlt, -⟩ := hmem offset rfl
    refine inside_bind (inside_readUInt32LE (by omega)) fun centralDirectorySize _ => ?_
    refine inside_bind (inside_readUInt32LE (by omega)) fun centralDirectoryOffset _ => ?_
    refine inside_require_bind fun _ => ?_
    refine inside_require_bind fun _ => ?_
    refine inside_bind (inside_parseFrom _ _ _) fun entries _ => ?_
    refine inside_require_bind fun _ => ?_
    exact inside_bind (inside_checkTotals limits 0 0 entries) fun _ _ => inside_ok entries

theorem inside_decompress (compressionMethod : Nat) (compressedData : Bytes) :
    Inside (decompress inflate compressionMethod compressedData) := by
  unfold decompress
  split
  · exact inside_ok _
  · split
    · exact inside_ok _
    · intro h
      cases h

theorem inside_verifyZipEntryData (limits : Limits) (file : Bytes)
    (entry : ZipCentralDirectoryEntry) : Inside (verifyZipEntryData limits inflate file entry) := by
  unfold verifyZipEntryData
  dsimp only
  split
  · exact inside_ok []
  · refine inside_require_bind fun _ => ?_
    refine inside_require_bind fun _ => ?_
    refine inside_require_bind fun hlen => ?_
    refine inside_bind (inside_readUInt32LE (by omega)) fun signature _ => ?_
    refine inside_require_bind fun _ => ?_
    refine inside_bind (inside_readUInt16LE (by omega)) fun localFileNameLength _ => ?_
    refine inside_bind (inside_readUInt16LE (by omega)) fun localExtraLength _ => ?_
    refine inside_require_bind fun _ => ?_
    refine inside_require_bind fun _ => ?_
    refine inside_bind (inside_decompress _ _) fun data _ => ?_
    refine inside_require_bind fun _ => ?_
    exact inside_require_bind fun _ => inside_ok data

theorem inside_readZipEntryData (limits : Limits) (file : Bytes) (entryName : Text) :
    Inside (readZipEntryData limits inflate file entryName) := by
  refine inside_require_bind fun _ => ?_
  dsimp only
  refine inside_require_bind fun _ => ?_
  refine inside_bind (inside_readZipCentralDirectoryEntries limits file) fun entries _ => ?_
  split
  · exact inside_badRequest _
  · exact inside_require_bind fun _ => inside_verifyZipEntryData limits file _

/-- The data is what the directory says of an entry with the name, which lies in the file. -/
def MatchesDirectory (limits : Limits) (file : Bytes) (entryName : Text) (data : Bytes) : Prop :=
  ∃ entries entry, readZipCentralDirectoryEntries limits file = .ok entries ∧ entry ∈ entries ∧
    normalizeZipEntryName entry.name = normalizeZipEntryName entryName ∧
    data.length = entry.uncompressedSize ∧ (Crc32.checksum data).toNat = entry.crc32 ∧
    entry.localHeaderOffset + 30 + entry.compressedSize ≤ file.length

theorem matches_of_verifyZipEntryData {limits : Limits} {file data : Bytes}
    {entry : ZipCentralDirectoryEntry}
    (hfile : endsWithSlash (normalizeZipEntryName entry.name) = false)
    (h : verifyZipEntryData limits inflate file entry = .ok data) :
    data.length = entry.uncompressedSize ∧ (Crc32.checksum data).toNat = entry.crc32 ∧
      entry.localHeaderOffset + 30 + entry.compressedSize ≤ file.length := by
  rw [verifyZipEntryData, hfile, if_neg Bool.false_ne_true] at h
  obtain ⟨_, -, h⟩ := bind_eq_ok.1 h
  obtain ⟨_, -, h⟩ := bind_eq_ok.1 h
  obtain ⟨_, -, h⟩ := bind_eq_ok.1 h
  obtain ⟨signature, -, h⟩ := bind_eq_ok.1 h
  obtain ⟨_, -, h⟩ := bind_eq_ok.1 h
  obtain ⟨localFileNameLength, -, h⟩ := bind_eq_ok.1 h
  obtain ⟨localExtraLength, -, h⟩ := bind_eq_ok.1 h
  obtain ⟨_, hinside, h⟩ := bind_eq_ok.1 h
  obtain ⟨_, -, h⟩ := bind_eq_ok.1 h
  obtain ⟨data', -, h⟩ := bind_eq_ok.1 h
  obtain ⟨_, hsize, h⟩ := bind_eq_ok.1 h
  obtain ⟨_, hsum, h⟩ := bind_eq_ok.1 h
  cases h
  have hrange := require_eq_ok.1 hinside
  refine ⟨require_eq_ok.1 hsize, ?_, by omega⟩
  rw [← crc32_eq]
  exact require_eq_ok.1 hsum

theorem matches_of_readZipEntryData {limits : Limits} {file data : Bytes} {entryName : Text}
    (h : readZipEntryData limits inflate file entryName = .ok data) :
    MatchesDirectory limits file entryName data := by
  obtain ⟨_, -, h⟩ := bind_eq_ok.1 h
  obtain ⟨_, hname, h⟩ := bind_eq_ok.1 h
  obtain ⟨entries, hentries, h⟩ := bind_eq_ok.1 h
  have hfile := (require_eq_ok.1 hname).2
  split at h
  · cases h
  next entry hfind =>
    obtain ⟨_, -, h⟩ := bind_eq_ok.1 h
    have hbeq := List.find?_some hfind
    have hsame := beq_iff_eq.1 hbeq
    exact ⟨entries, entry, hentries, List.mem_of_find?_eq_some hfind, hsame,
      matches_of_verifyZipEntryData (by rw [hsame]; exact hfile) h⟩

/-- **Reading an entry inverts writing it** for every archive whose end record is found, and for any
bytes what is returned is what the directory says. -/
theorem readZipEntryData_inverts (limits : Limits) (inflateRawSync : Inflate) (entryName : Text) :
    (∀ (a : Archive) (e : ZipEntry), a.WellFormed inflateRawSync → a.WithinLimits limits →
      a.IsFile e → normalizeZipEntryName entryName = e.normalizedName → a.EndRecordFound →
      readZipEntryData limits inflateRawSync a.bytes entryName = .ok e.data) ∧
    ∀ file : Bytes, readZipEntryData limits inflateRawSync file entryName ≠ .error .outOfRange ∧
      ∀ data, readZipEntryData limits inflateRawSync file entryName = .ok data →
        MatchesDirectory limits file entryName data :=
  ⟨fun _ _ h hlimits hfile hname hfound => readZipEntryData_eq h hlimits hfile hname hfound,
    fun file => ⟨inside_readZipEntryData limits file entryName,
      fun _ => matches_of_readZipEntryData⟩⟩

/-- A stored file. -/
def storedEntry : ZipEntry where
  name := [97]
  compressionMethod := 0
  data := [1, 2, 3]
  compressed := [1, 2, 3]
  localHeaderOffset := 0
  localExtra := []
  centralExtra := []
  comment := []
  versionMadeBy := 20
  versionNeeded := 20
  flags := 0
  time := 0
  date := 0
  internalAttributes := 0
  externalAttributes := 0
  localCrc32 := 0
  localCompressedSize := 0
  localUncompressedSize := 0

/-- An archive with one stored file. -/
def storedArchive (comment : Bytes) : Archive where
  body := storedEntry.localRecord
  entries := [storedEntry]
  comment

/-- The limits without an environment. -/
def defaultLimits : Limits where
  entries := 10000
  entryBytes := 256 * 1024 * 1024
  totalBytes := 1024 * 1024 * 1024

theorem storedArchive_wellFormed {comment : Bytes} (h : comment.length < 2 ^ 16) :
    (storedArchive comment).WellFormed (fun _ => none) where
  entry e he := by
    rw [List.mem_singleton.1 he]
    exact ⟨.inl ⟨rfl, rfl⟩, rfl, by decide, by decide, by decide, by decide, by decide, by decide,
      by decide⟩
  located e he := by
    rw [List.mem_singleton.1 he]
    exact ⟨[], [], (List.append_nil _).symm, rfl⟩
  count := show [storedEntry].length < 2 ^ 16 by decide
  directory := show ([storedEntry].flatMap ZipEntry.centralRecord).length < 0xffffffff by decide
  body := show storedEntry.localRecord.length < 0xffffffff by decide
  comment := h

theorem storedArchive_withinLimits (comment : Bytes) :
    (storedArchive comment).WithinLimits defaultLimits where
  count := show [storedEntry].length ≤ 10000 by decide
  compressed := show 3 ≤ 1024 * 1024 * 1024 by decide
  data := show 3 ≤ 1024 * 1024 * 1024 by decide
  entry e he := by
    rw [List.mem_singleton.1 he]
    decide

theorem storedArchive_isFile (comment : Bytes) : (storedArchive comment).IsFile storedEntry where
  mem := List.mem_singleton_self _
  isSafe := by decide
  notDirectory := by decide
  unique e he _ := List.mem_singleton.1 he

theorem storedArchive_is_read :
    readZipEntryData defaultLimits (fun _ => none) (storedArchive [0]).bytes ['a'] =
      .ok [1, 2, 3] :=
  (readZipEntryData_inverts _ _ _).1 _ storedEntry (storedArchive_wellFormed (by decide))
    (storedArchive_withinLimits _) (storedArchive_isFile _) (by decide)
    (endRecordFound_of_plain (storedArchive_wellFormed (by decide)) fun offset hpos hle => by
      obtain rfl : offset = 1 := Nat.le_antisymm hle hpos
      decide +kernel)

/-- A comment of one signature and eighteen zeros hides the end record. -/
theorem comment_hides_end_record :
    ¬ ∀ (limits : Limits) (inflateRawSync : Inflate) (a : Archive)
      (e : ZipEntry) (entryName : Text),
      a.WellFormed inflateRawSync → a.WithinLimits limits → a.IsFile e →
      normalizeZipEntryName entryName = e.normalizedName →
      readZipEntryData limits inflateRawSync a.bytes entryName = .ok e.data := by
  intro h
  have hread := h defaultLimits (fun _ => none)
    (storedArchive (u32 0x06054b50 ++ List.replicate 18 0)) storedEntry ['a']
    (storedArchive_wellFormed (by decide)) (storedArchive_withinLimits _) (storedArchive_isFile _)
    (by decide)
  exact absurd hread (by decide +kernel)

end ChordV.Api.Zip
