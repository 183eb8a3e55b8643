/-!
# Limits

The fixed bounds of a record, of the editor that changes it, of the lookups that read it in place,
and of the integers.
-/

namespace PropertyRecord

/-- The number of properties that one editor holds at most. -/
def maxProperties : Nat := 16

/-- The length in bytes of the longest record name, and of the longest key that a lookup compares.
-/
def maxNameSize : Nat := 32

/-- The length in bytes of the longest record that may be written. -/
def maxRecordSize : Nat := 16384

/-- The bytes that a lookup fetches a record into. -/
def lookupWindow : Nat := 1024

/-- The number of records that a store in memory holds unless it is told otherwise. -/
def defaultRecordCount : Nat := 16

/-- The number of container and tag levels below the outermost item that a skip descends. -/
def maxNesting : Nat := 32

/-- The first natural number that does not fit the signed integers of 64 bits. -/
def signedBound : Nat := 0x8000000000000000

/-- The first natural number that does not fit the unsigned integers of 64 bits, the arguments of
headers among them. -/
def unsignedBound : Nat := 0x10000000000000000

end PropertyRecord
