import PluginForge.Archive.Basic
import PluginForge.Archive.Checksum

namespace PluginForge.Archive.Zip

/-- A number in so many bytes, the lowest first. -/
def littleEndian : (width n : Nat) → List UInt8
  | 0, _ => []
  | width + 1, n => UInt8.ofNat n :: littleEndian width (n / 256)

/-- The number that bytes stand for, the lowest first. -/
def number : List UInt8 → Nat
  | [] => 0
  | b :: bytes => b.toNat + 256 * number bytes

/-- Numbers with their widths, one behind the other. -/
def fields (values : List (Nat × Nat)) : List UInt8 :=
  values.flatMap fun value => littleEndian value.1 value.2

def splitAt? (n : Nat) (bytes : List UInt8) : Option (List UInt8 × List UInt8) :=
  if n ≤ bytes.length then some (bytes.take n, bytes.drop n) else none

/-- The numbers of some widths that bytes begin with, and what is behind them. -/
def readFields : (widths : List Nat) → List UInt8 → Option (List Nat × List UInt8)
  | [], bytes => some ([], bytes)
  | width :: widths, bytes => do
    let (digits, bytes) ← splitAt? width bytes
    let (values, bytes) ← readFields widths bytes
    return (number digits :: values, bytes)

/-- The most bytes that a block of a deflated stream holds when they are kept as they are. -/
def blockLimit : Nat :=
  65535

theorem length_drop_blockLimit {bytes : List UInt8} (h : blockLimit < bytes.length) :
    (bytes.drop blockLimit).length < bytes.length := by
  have : 0 < blockLimit := Nat.pos_of_ne_zero (by simp [blockLimit])
  rw [List.length_drop]
  omega

/-- What stands in front of a block that is kept as it is. -/
def blockHeader (isLast : Nat) (block : List UInt8) : List UInt8 :=
  fields [(1, isLast), (2, block.length), (2, blockLimit - block.length)]

/-- Bytes as blocks of a deflated stream that keeps them as they are; the last block is marked. -/
def storedBlocks (bytes : List UInt8) : List UInt8 :=
  if _h : blockLimit < bytes.length then
    let block := bytes.take blockLimit
    blockHeader 0 block ++ block ++ storedBlocks (bytes.drop blockLimit)
  else blockHeader 1 bytes ++ bytes
  termination_by bytes.length
  decreasing_by exact length_drop_blockLimit ‹_›

/-- The bytes of a deflated stream that keeps them as they are. -/
def unstored? : List UInt8 → Option (List UInt8)
  | isLast :: l :: l' :: c :: c' :: bytes =>
    let length := number [l, l']
    if length + number [c, c'] = blockLimit ∧ length ≤ bytes.length then
      match isLast.toNat with
      | 0 => (unstored? (bytes.drop length)).map (bytes.take length ++ ·)
      | 1 => if bytes.length = length then some bytes else none
      | _ => none
    else none
  | _ => none
  termination_by bytes => bytes.length
  decreasing_by
    rw [List.length_drop]
    simp only [List.length_cons]
    omega

/-- The number that stands for the way in which content is kept. -/
def methodCode : Config.Compression → Nat
  | .stored => 0
  | .deflated => 8

def method? (code : Nat) : Option Config.Compression :=
  Config.Compression.all.find? fun method => methodCode method == code

def pack : Config.Compression → List UInt8 → List UInt8
  | .stored, content => content
  | .deflated, content => storedBlocks content

def unpack? : Config.Compression → List UInt8 → Option (List UInt8)
  | .stored, packed => some packed
  | .deflated, packed => unstored? packed

/-- What is told of an entry in front of its content and in the directory alike. -/
structure Header where
  flags : Nat
  method : Nat
  checksum : Nat
  packedSize : Nat
  size : Nat
  nameSize : Nat
  deriving DecidableEq

/-- The first day that an entry can be dated. -/
def date : Nat :=
  33

namespace Header

def fields (h : Header) : List (Nat × Nat) :=
  [(2, 20), (2, h.flags), (2, h.method), (2, 0), (2, date), (4, h.checksum), (4, h.packedSize),
    (4, h.size), (2, h.nameSize), (2, 0)]

def widths : List Nat :=
  [2, 2, 2, 2, 2, 4, 4, 4, 2, 2]

def ofValues? : List Nat → Option Header
  | [_, flags, method, _, _, checksum, packedSize, size, nameSize, 0] =>
    some ⟨flags, method, checksum, packedSize, size, nameSize⟩
  | _ => none

end Header

/-- The flag of names that are not ASCII. -/
def nameFlags (name : Text) : Nat :=
  if name.all fun c => c.toNat < 128 then 0 else 2048

def nameBytes (e : Entry) : List UInt8 :=
  (Text.toUtf8 e.name).data.toList

def packed (e : Entry) : List UInt8 :=
  pack e.method e.content.data.toList

def header (e : Entry) : Header where
  flags := nameFlags e.name
  method := methodCode e.method
  checksum := (checksum e.content.data.toList).toNat
  packedSize := (packed e).length
  size := e.content.size
  nameSize := (nameBytes e).length

def localSignature : Nat :=
  0x04034b50

def lineSignature : Nat :=
  0x02014b50

def endSignature : Nat :=
  0x06054b50

def localPart (e : Entry) : List UInt8 :=
  fields ((4, localSignature) :: (header e).fields) ++ nameBytes e ++ packed e

/-- The line of the directory for an entry that begins at an offset. -/
def directoryLine (e : Entry) (offset : Nat) : List UInt8 :=
  fields ([(4, lineSignature), (2, 20)] ++ (header e).fields ++
    [(2, 0), (2, 0), (2, 0), (4, 0), (4, offset)]) ++ nameBytes e

def directoryLines : Nat → List Entry → List UInt8
  | _, [] => []
  | offset, e :: es => directoryLine e offset ++ directoryLines (offset + (localPart e).length) es

/-- What stands at the end of an archive: how many entries there are, how many bytes their directory
takes, and the offset of the directory. -/
def endFields (count size offset : Nat) : List (Nat × Nat) :=
  [(4, endSignature), (2, 0), (2, 0), (2, count), (2, count), (4, size), (4, offset), (2, 0)]

/-- The bytes of an archive: the entries, the directory of all entries, and where that is found. -/
def bytes (entries : List Entry) : List UInt8 :=
  let body := entries.flatMap localPart
  let directory := directoryLines 0 entries
  body ++ (directory ++ fields (endFields entries.length directory.length body.length))

def write : Writer := fun entries =>
  if Fits entries then .ok ⟨(bytes entries).toArray⟩ else .error "Large file option has not been set"

/-- A line of the directory, the offset that it tells, and what is behind it. -/
def readLine? (directory : List UInt8) : Option (Header × List UInt8 × Nat × List UInt8) := do
  let ([signature, _], rest) ← readFields [4, 2] directory | none
  let (values, rest) ← readFields Header.widths rest
  let h ← Header.ofValues? values
  let ([0, _, _, _, offset], rest) ← readFields [2, 2, 2, 4, 4] rest | none
  let (name, rest) ← splitAt? h.nameSize rest
  if signature = lineSignature then some (h, name, offset, rest) else none

/-- The bytes of an entry's content, as they are kept behind its header and its name. -/
def readPacked? (h : Header) (name part : List UInt8) : Option (List UInt8) := do
  let ([signature], rest) ← readFields [4] part | none
  let (values, rest) ← readFields Header.widths rest
  let h' ← Header.ofValues? values
  let (name', rest) ← splitAt? h.nameSize rest
  let (packed, _) ← splitAt? h.packedSize rest
  if signature = localSignature ∧ h' = h ∧ name' = name then some packed else none

/-- An entry of an archive, and what is behind its line in the directory. -/
def readItem? (archive directory : List UInt8) : Option (Entry × List UInt8) := do
  let (h, name, offset, rest) ← readLine? directory
  let packed ← readPacked? h name (archive.drop offset)
  let method ← method? h.method
  let content ← unpack? method packed
  let name ← Text.ofUtf8? ⟨name.toArray⟩
  if (checksum content).toNat = h.checksum ∧ content.length = h.size then
    some (⟨name, method, ⟨content.toArray⟩⟩, rest)
  else none

def readEntries? (archive : List UInt8) : (count : Nat) → List UInt8 → Option (List Entry)
  | 0, directory => if directory.isEmpty then some [] else none
  | count + 1, directory => do
    let (e, rest) ← readItem? archive directory
    let es ← readEntries? archive count rest
    return e :: es

def endSize : Nat :=
  22

def read : Reader := fun content => do
  let archive := content.data.toList
  let (values, _) ← readFields [4, 2, 2, 2, 2, 4, 4, 2] (archive.drop (archive.length - endSize))
  let [signature, _, _, _, count, size, offset, 0] := values | none
  if signature = endSignature ∧ offset + size + endSize = archive.length then
    readEntries? archive count ((archive.drop offset).take size)
  else none

end PluginForge.Archive.Zip
