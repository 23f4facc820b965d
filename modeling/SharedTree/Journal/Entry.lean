import SharedTree.Change
/-!
Entries of the journal. An entry holds the row changes of one committed transaction, or all rows
after a compaction.
-/
namespace SharedTree.Journal

structure Entry where
  sequence : UInt64
  timestamp : Int64
  changes : List Change
deriving DecidableEq

namespace Entry

def toJson (entry : Entry) : Json :=
  .object [("sequence", .natural entry.sequence.toNat), ("timestamp", .integer entry.timestamp.toInt),
    ("ops", .array (entry.changes.map Change.toJson))]

def fieldNames : List String := ["sequence", "timestamp", "ops"]

def ofJson? (value : Json) : Option Entry := do
  match ← value.fields? fieldNames fieldNames.length with
  | [sequence, timestamp, changes] =>
      some
        { sequence := UInt64.ofNat (← Json.required? Json.natural? sequence)
          timestamp := ← Json.required? Json.int64? timestamp
          changes := ← Json.required? (Json.list? Change.ofJson?) changes }
  | _ => none

def ofText? : List UInt8 → Option Entry := Json.record? fieldNames ofJson?

end Entry

end SharedTree.Journal
