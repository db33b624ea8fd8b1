import FirewallLists.Item
import FirewallLists.Error

/-
  Items as callers send them, and the checks that turn them into items ready to be written.
-/

namespace FirewallLists

open Net Text

structure ItemDraft where
  listId : Int := 0
  /-- One address, a range or a block; it counts before the bounds. -/
  value : String := ""
  ipFrom : String := ""
  ipTo : String := ""
  /-- The name of an item type; a blank text leaves it to the address. -/
  type : String := ""
  expiredAt : Int := 0
  reason : String := ""
  eventLevel : String := ""
  nodeId : Int := 0
  serverId : Int := 0
  source : Provenance := {}
  deriving DecidableEq, Repr

namespace ItemDraft

/-- The item type asked for, if one is. -/
def requestedType (d : ItemDraft) : Except ServiceError (Option ItemType) :=
  if allBlank d.type then .ok none
  else match ItemType.ofName? (trim d.type) with
    | some t => .ok (some t)
    | none => .error (.validation ("invalid 'type': " ++ d.type))

/-- The range the draft names by its value or else by its bounds. -/
def namedRange (d : ItemDraft) : Except RangeError Range :=
  if allBlank d.value then Range.ofBounds d.ipFrom d.ipTo else Range.ofValue d.value

/-- The range to write, which has to be of the type asked for. -/
def writtenRange (d : ItemDraft) : Option ItemType → Except ServiceError (Option Range)
  | some .all => .ok none
  | requested => do
    let range ← d.namedRange.mapError .invalidRange
    match requested with
    | some t =>
      if t = .ofFamily range.family then .ok (some range)
      else .error (.validation
        ("'type' " ++ t.name ++ " does not match address " ++ range.toText))
    | none => .ok (some range)

/-- Check the draft and bring it to its written form. -/
def normalize (d : ItemDraft) : Except ServiceError NewItem := do
  if d.listId ≤ 0 then .error (.validation "invalid 'ipListId'")
  if d.expiredAt < 0 then .error (.validation "invalid 'expiredAt'")
  let requested ← d.requestedType
  let range ← d.writtenRange requested
  return {
    listId := d.listId
    range := range
    expiredAt := d.expiredAt
    reason := d.reason
    eventLevel := d.eventLevel
    nodeId := max d.nodeId 0
    serverId := max d.serverId 0
    source := d.source.normalized }

end ItemDraft

end FirewallLists
