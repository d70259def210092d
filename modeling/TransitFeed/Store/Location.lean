/-!
# Locations

A location names a feed store: a directory of text files, a zip archive, or a
relational database. An explicit `scheme://` prefix names the kind of store; otherwise
the extension does (`.zip`, then `.db` or `.sqlite`, in any case), and anything else is
a directory.
-/

namespace TransitFeed

/-- The lowercase form of a character, for the letters that have a single one. -/
def lowerChar (c : Char) : Char :=
  let n := c.toNat
  if 'A'.toNat ≤ n ∧ n ≤ 'Z'.toNat then Char.ofNat (n + 32)
  else if (0xC0 ≤ n ∧ n ≤ 0xDE ∧ n ≠ 0xD7) then Char.ofNat (n + 32)
  else if 0x391 ≤ n ∧ n ≤ 0x3AB ∧ n ≠ 0x3A2 then Char.ofNat (n + 32)
  else if 0x410 ≤ n ∧ n ≤ 0x42F then Char.ofNat (n + 32)
  else if 0x400 ≤ n ∧ n ≤ 0x40F then Char.ofNat (n + 80)
  else c

/-- The lowercase form of a text. -/
def lowercase (s : String) : String := String.map lowerChar s

/-- The scheme and the path of a location. -/
def splitLocation (location : String) : String × String :=
  match location.splitOn "://" with
  | scheme :: path :: more => (lowercase scheme, String.intercalate "://" (path :: more))
  | _ =>
    let lower := lowercase location
    let scheme :=
      if lower.endsWith ".zip" then "zip"
      else if lower.endsWith ".db" || lower.endsWith ".sqlite" then "sqlite"
      else "csv"
    (scheme, location)

end TransitFeed
