namespace PluginForge.Archive

/-- One step of the division of a bit sequence by the polynomial of the checksum. -/
def checksumStep (remainder : UInt32) : UInt32 :=
  if remainder &&& 1 = 1 then (remainder >>> 1) ^^^ 0xEDB88320 else remainder >>> 1

def checksumByte (remainder : UInt32) (b : UInt8) : UInt32 :=
  (List.range 8).foldl (fun r _ => checksumStep r) (remainder ^^^ b.toUInt32)

/-- The 32-bit cyclic redundancy check of bytes. -/
def checksum (bytes : List UInt8) : UInt32 :=
  bytes.foldl checksumByte 0xFFFFFFFF ^^^ 0xFFFFFFFF

end PluginForge.Archive
