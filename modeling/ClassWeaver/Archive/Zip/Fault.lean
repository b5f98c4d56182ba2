namespace ClassWeaver

namespace Zip

inductive Fault where
  | tooShort
  | noEnd
  | badSpan
  | manyDisks
  | noRoomForWideEnd
  | noWideEnd
  | badLine
  | farEntry
  | cipherLength
  | cipherVendor
  | cipherVersion
  | cipherStrength
  | cipherMissing
  | badEntry
  | encrypted
  | unknownMethod
  | truncated
  | corrupt
  | badChecksum
  deriving DecidableEq, Repr

namespace Fault

def invalid (reason : String) : String := "invalid Zip archive: " ++ reason

def unsupported (reason : String) : String := "unsupported Zip archive: " ++ reason

def message : Fault → String
  | tooShort => invalid "Invalid zip header"
  | noEnd => invalid "Could not find central directory end"
  | badSpan => invalid "Invalid central directory size or offset"
  | manyDisks => unsupported "Support for multi-disk files is not implemented"
  | noRoomForWideEnd => invalid "File cannot contain ZIP64 central directory end"
  | noWideEnd => invalid "Could not find ZIP64 central directory end"
  | badLine => invalid "Invalid Central Directory header"
  | farEntry => invalid "Archive header is too large"
  | cipherLength => unsupported "AES extra data field has an unsupported length"
  | cipherVendor => invalid "Invalid AES vendor"
  | cipherVersion => invalid "Invalid AES vendor version"
  | cipherStrength => invalid "Invalid AES encryption strength"
  | cipherMissing => invalid "AES encryption without AES extra data field"
  | badEntry => invalid "Invalid local file header"
  | encrypted => unsupported "Password required to decrypt file"
  | unknownMethod => unsupported "Compression method not supported"
  | truncated => "failed to fill whole buffer"
  | corrupt => "corrupt deflate stream"
  | badChecksum => "Invalid checksum"

end Fault

end Zip

end ClassWeaver
