import GroupCalendar.Crypto.Sha256

/-! # HMAC

Keyed digests with SHA-256. A key longer than a block is replaced by its digest.
-/

namespace GroupCalendar.Hmac

def blockKey (key : List UInt8) : List UInt8 :=
  let key := if 64 < key.length then Sha256.digest key else key
  key ++ List.replicate (64 - key.length) 0

/-- The authentication code of a message under a key. -/
def code (key message : List UInt8) : List UInt8 :=
  let key := blockKey key
  Sha256.digest (key.map (· ^^^ 0x5C) ++ Sha256.digest (key.map (· ^^^ 0x36) ++ message))

end GroupCalendar.Hmac
