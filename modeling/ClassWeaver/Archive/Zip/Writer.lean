import ClassWeaver.Archive.Entry
import ClassWeaver.Archive.Zip.Crc
import ClassWeaver.Archive.Zip.Deflate
import ClassWeaver.Archive.Zip.Name

namespace ClassWeaver

namespace Zip

def le16 (w : UInt16) : Bytes := (be16 w).reverse

def le32 (w : UInt32) : Bytes := (be32 w).reverse

def entryMark : UInt32 := 0x04034b50

def directoryMark : UInt32 := 0x02014b50

def endMark : UInt32 := 0x06054b50

def methodStored : UInt16 := 0

def methodDeflated : UInt16 := 8

def unicodeFlag : UInt16 := 0x800

def formatVersion : UInt16 := 20

def madeBy : UInt16 := 3 * 256 + 46

def fullMode (e : Entry) : Nat :=
  if e.isDirectory then 0o40000 + (e.mode.getD Entry.directoryMode) % 512
  else 0o100000 + (e.mode.getD Entry.fileMode) % 512

def commonHeader (e : Entry) (packed : Bytes) : Bytes :=
  le16 formatVersion ++ le16 (if needsUnicode e.name then unicodeFlag else 0) ++
    le16 (if e.stored then methodStored else methodDeflated) ++
    le16 e.modified.time ++ le16 e.modified.date ++ le32 (crc32 e.data) ++
    le32 (UInt32.ofNat packed.length) ++ le32 (UInt32.ofNat e.data.length) ++
    le16 (UInt16.ofNat (Utf8.encode e.name).length) ++ le16 0

def encodeEntry (offset : Nat) (e : Entry) : Bytes × Bytes :=
  let packed := if e.stored then e.data else Deflate.store e.data
  let common := commonHeader e packed
  let name := Utf8.encode e.name
  (le32 entryMark ++ common ++ name ++ packed,
   le32 directoryMark ++ le16 madeBy ++ common ++ le16 0 ++ le16 0 ++ le16 0 ++
    le32 (UInt32.ofNat (fullMode e * 65536)) ++ le32 (UInt32.ofNat offset) ++ name)

def encodeFrom : Nat → List Entry → List Bytes × List Bytes
  | _, [] => ([], [])
  | offset, e :: rest =>
    let (bytes, line) := encodeEntry offset e
    let (more, lines) := encodeFrom (offset + bytes.length) rest
    (bytes :: more, line :: lines)

def encode (entries : List Entry) : Bytes :=
  let (files, lines) := encodeFrom 0 entries
  let body := files.flatten
  let directory := lines.flatten
  let count := UInt16.ofNat entries.length
  body ++ directory ++
    (le32 endMark ++ le16 0 ++ le16 0 ++ le16 count ++ le16 count ++
      le32 (UInt32.ofNat directory.length) ++ le32 (UInt32.ofNat body.length) ++ le16 0)

end Zip

end ClassWeaver
