import SeedTree.Store

/- A store as one byte string: a mark, then the four maps, each as the number of its entries and the
   entries, keys and values behind their lengths. -/
namespace SeedTree.Store.Image

open Record (Reader)

def mark : Bytes := utf8 "seed tree store 1\n"

def field (bs : Bytes) : Bytes := Bytes.little 8 bs.length ++ bs

def mapField (m : ByteMap Bytes) : Bytes :=
  Bytes.little 8 m.size ++ m.toList.flatMap fun (key, value) => field key ++ field value

def encode (s : Store) : Bytes :=
  mark ++ mapField s.nodes ++ mapField s.children ++ mapField s.ids ++ mapField s.marks

def readField : Reader Bytes := do
  let length ← Reader.number 8
  Reader.take length

def readEntries : Nat → ByteMap Bytes → Reader (ByteMap Bytes)
  | 0, m => return m
  | count + 1, m => do
    let key ← readField
    let value ← readField
    readEntries count (m.insert key value)

def readMap : Reader (ByteMap Bytes) := do
  let count ← Reader.number 8
  readEntries count ∅

def readStore : Reader Store := do
  let start ← Reader.take mark.length
  if start = mark then
    let nodes ← readMap
    let children ← readMap
    let ids ← readMap
    let marks ← readMap
    return ⟨nodes, children, ids, marks⟩
  else Reader.ofOption none

def decode? (bs : Bytes) : Option Store := (readStore bs).map Prod.fst

end SeedTree.Store.Image
