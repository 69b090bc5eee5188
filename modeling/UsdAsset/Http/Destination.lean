import UsdAsset.Http.Transport

/-!
# Address classification

Models `Destination.h` and `Destination.cpp`: the class of a numeric address, and
the reading of a URI host as a literal address.  A host that is a name is not
classified here; it is judged by the address it resolves to.
-/

namespace UsdAsset.Http

open ByteString

/-- An IPv4 address, in network byte order. -/
abbrev IPv4 := Vector UInt8 4

/-- An IPv6 address, in network byte order. -/
abbrev IPv6 := Vector UInt8 16

/-- The well-known instance-metadata and credential endpoints, by value. -/
def metadataIPv4 : List IPv4 :=
  [#v[169, 254, 169, 254], #v[169, 254, 170, 2], #v[169, 254, 170, 23], #v[169, 254, 0, 23],
    #v[100, 100, 100, 200], #v[168, 63, 129, 16]]

def isMetadataIPv4 (address : IPv4) : Bool := metadataIPv4.contains address

/-- The class of an IPv4 address; the metadata endpoints come before any range. -/
def classifyIPv4 (address : IPv4) : AddressClass :=
  if isMetadataIPv4 address then .metadata
  else if address[0] = 127 ∨ address[0] = 0 then .loopback
  else if address[0] = 169 ∧ address[1] = 254 then .linkLocal
  else if address[0] = 10 then .private
  else if address[0] = 172 ∧ address[1] &&& 0xf0 = 0x10 then .private
  else if address[0] = 192 ∧ address[1] = 168 then .private
  else if address[0] = 100 ∧ address[1] &&& 0xc0 = 0x40 then .private
  else .public

/-- Whether the bytes `first` to `last`, exclusive, are zero. -/
def allZero (address : IPv6) (first last : ℕ) : Bool :=
  ((address.toList.drop first).take (last - first)).all (· == 0)

def trailingIPv4 (address : IPv6) : IPv4 :=
  #v[address[12], address[13], address[14], address[15]]

def isMetadataIPv6 (address : IPv6) : Bool :=
  address[0] == 0xfd && address[1] == 0x00 && address[2] == 0x0e && address[3] == 0xc2 &&
    allZero address 4 14 &&
    ((address[14] == 0x02 && address[15] == 0x54) || (address[14] == 0x00 && address[15] == 0x23))

/-- The class of an IPv6 address; one that carries an IPv4 address has its class. -/
def classifyIPv6 (address : IPv6) : AddressClass :=
  if allZero address 0 12 then
    if address[12] = 0 ∧ address[13] = 0 ∧ address[14] = 0 ∧
        (address[15] = 0 ∨ address[15] = 1) then .loopback
    else classifyIPv4 (trailingIPv4 address)
  else if allZero address 0 10 ∧ address[10] = 0xff ∧ address[11] = 0xff then
    classifyIPv4 (trailingIPv4 address)
  else if address[0] = 0x00 ∧ address[1] = 0x64 ∧ address[2] = 0xff ∧ address[3] = 0x9b ∧
      allZero address 4 12 then
    classifyIPv4 (trailingIPv4 address)
  else if isMetadataIPv6 address then .metadata
  else if address[0] = 0xfe ∧ address[1] &&& 0xc0 = 0x80 then .linkLocal
  else if address[0] = 0xfe ∧ address[1] &&& 0xc0 = 0xc0 then .private
  else if address[0] &&& 0xfe = 0xfc then .private
  else .public

def parseIPv4Part (text : Bytes) : Option (UInt8 × Bytes) :=
  let digits := text.takeWhile isDigit
  let value := digits.foldlM (fun value byte =>
    let next := value * 10 + (byte - '0').toNat
    if next > 255 then none else some next) 0
  match value with
  | none => none
  | some value =>
      if digits.length = 0 ∨ digits.length > 3 then none
      else if digits.length > 1 ∧ digits.head? = some (('0' : Char) : UInt8) then none
      else some (UInt8.ofNat value, text.dropWhile isDigit)

/-- A part that a dot has to precede. -/
def parseIPv4Next (text : Bytes) : Option (UInt8 × Bytes) :=
  match text with
  | [] => none
  | byte :: rest => if byte = '.' then parseIPv4Part rest else none

/-- Parses canonical dotted-quad text: four parts, no leading zeros and nothing else. -/
def parseIPv4 (text : Bytes) : Option IPv4 := do
  let (a, afterA) ← parseIPv4Part text
  let (b, afterB) ← parseIPv4Next afterA
  let (c, afterC) ← parseIPv4Next afterB
  let (d, afterD) ← parseIPv4Next afterC
  if afterD = [] then some #v[a, b, c, d] else none

def hexValue (byte : UInt8) : Option ℕ :=
  if isDigit byte then some (byte - '0').toNat
  else if 'a' ≤ byte ∧ byte ≤ 'f' then some ((byte - 'a').toNat + 10)
  else if 'A' ≤ byte ∧ byte ≤ 'F' then some ((byte - 'A').toNat + 10)
  else none

def parseGroup (part : Bytes) : Option ℕ :=
  if part = [] ∨ part.length > 4 then none
  else part.foldlM (fun value byte => (hexValue byte).map (value * 16 + ·)) 0

/-- The parts between colons; a dotted quad is admitted as the final one and counts as two. -/
def parseGroupParts (allowTrailingIPv4 : Bool) : List Bytes → List ℕ → Option (List ℕ)
  | [], groups => some groups
  | part :: rest, groups =>
      if part.contains (('.' : Char) : UInt8) then
        if !allowTrailingIPv4 ∨ rest ≠ [] then none
        else
          match parseIPv4 part with
          | none => none
          | some quad =>
              if groups.length + 2 > 8 then none
              else some (groups ++ [quad[0].toNat * 256 + quad[1].toNat,
                quad[2].toNat * 256 + quad[3].toNat])
      else
        match parseGroup part with
        | none => none
        | some value =>
            if groups.length + 1 > 8 then none
            else parseGroupParts allowTrailingIPv4 rest (groups ++ [value])

def parseGroups (text : Bytes) (allowTrailingIPv4 : Bool) : Option (List ℕ) :=
  if text = [] then some []
  else parseGroupParts allowTrailingIPv4 (text.splitOn ((':' : Char) : UInt8)) []

def bytesOfGroups (groups : List ℕ) : IPv6 :=
  Vector.ofFn fun index : Fin 16 =>
    let group := groups.getD (index.val / 2) 0
    UInt8.ofNat (if index.val % 2 = 0 then group / 256 else group % 256)

/-- Parses IPv6 text: groups, at most one `::`, an optional trailing dotted quad. -/
def parseIPv6 (text : Bytes) : Option IPv6 :=
  match find (bytes "::") text with
  | none =>
      match parseGroups text true with
      | some groups => if groups.length = 8 then some (bytesOfGroups groups) else none
      | none => none
  | some gap =>
      -- A second `::`, the overlapping one in `:::` included, makes the gap ambiguous.
      if (find (bytes "::") (text.drop (gap + 1))).isSome then none
      else
        match parseGroups (text.take gap) false, parseGroups (text.drop (gap + 2)) true with
        | some head, some tail =>
            if head.length + tail.length > 7 then none
            else some (bytesOfGroups
              (head ++ List.replicate (8 - head.length - tail.length) 0 ++ tail))
        | _, _ => none

/-- Classifies a URI host when it is a literal address. -/
def classifyHostLiteral (host : Bytes) : Option AddressClass :=
  if host.head? = some (('[' : Char) : UInt8) then
    if host.length < 2 ∨ host.getLast? ≠ some ((']' : Char) : UInt8) then none
    else
      -- The zone chooses an interface and not an address.
      let inner := (host.tail.dropLast).takeWhile fun (byte : UInt8) => byte != '%'
      (parseIPv6 inner).map classifyIPv6
  else
    let quad := if host.getLast? = some (('.' : Char) : UInt8) then host.dropLast else host
    (parseIPv4 quad).map classifyIPv4

/-! The IPv6 addresses that carry an IPv4 address. -/

/-- `::ffff:a.b.c.d` -/
def mapped (quad : IPv4) : IPv6 :=
  #v[0, 0, 0, 0, 0, 0, 0, 0, 0, 0, 0xff, 0xff, quad[0], quad[1], quad[2], quad[3]]

/-- `::a.b.c.d` -/
def compatible (quad : IPv4) : IPv6 :=
  #v[0, 0, 0, 0, 0, 0, 0, 0, 0, 0, 0, 0, quad[0], quad[1], quad[2], quad[3]]

/-- `64:ff9b::a.b.c.d` -/
def translated (quad : IPv4) : IPv6 :=
  #v[0, 0x64, 0xff, 0x9b, 0, 0, 0, 0, 0, 0, 0, 0, quad[0], quad[1], quad[2], quad[3]]

end UsdAsset.Http
