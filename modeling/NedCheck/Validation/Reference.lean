import NedCheck.Validation.Session

/-!
# Type references

The types that submodules and channel specs ask for. A type has to be a module type or a channel; a like-type has to be a module interface or a channel interface. A submodule asks for one of the two, a channel spec that asks for neither is of the default channel type.
-/

namespace NedCheck

namespace Validator

variable {σ : Type}

/-- The type a submodule asks for, by its type or else by its like-type, with the problem if there is no such type or it is of the wrong kind. Nothing if it asks for neither. -/
def submoduleType? (v : Validator σ) (submodule : Element) (context : LookupContext) (state : σ) :
    Option (Except Problem TypeInfo) × σ :=
  let typeName := submodule.value "type"
  let likeType := submodule.value "like-type"
  if !typeName.isEmpty then
    match v.resolver.lookupType typeName context state with
    | (none, state) => (some (.error (.noModuleType typeName)), state)
    | (some info, state) =>
      (some (if info.tag.isModuleType then .ok info else .error (.notModuleType typeName)), state)
  else if !likeType.isEmpty then
    match v.resolver.lookupType likeType context state with
    | (none, state) => (some (.error (.noModuleInterfaceType likeType)), state)
    | (some info, state) =>
      (some (if info.tag = .moduleInterface then .ok info else .error (.notModuleInterfaceType likeType)), state)
  else (none, state)

/-- The type a channel spec asks for, by its type, its like-type, or else the default, which is taken whatever its kind; a fault if there is no default channel type. -/
def channelType (v : Validator σ) (spec : Element) (context : LookupContext) (state : σ) :
    Except ValidationFault (Except Problem TypeInfo) × σ :=
  let typeName := spec.value "type"
  let likeType := spec.value "like-type"
  if !typeName.isEmpty then
    match v.resolver.lookupType typeName context state with
    | (none, state) => (.ok (.error (.noChannelType typeName)), state)
    | (some info, state) =>
      (.ok (if info.tag = .channel then .ok info else .error (.notChannelType typeName)), state)
  else if !likeType.isEmpty then
    match v.resolver.lookupType likeType context state with
    | (none, state) => (.ok (.error (.noChannelLikeType likeType)), state)
    | (some info, state) =>
      (.ok (if info.tag = .channelInterface then .ok info else .error (.notChannelInterfaceType likeType)), state)
  else
    match v.resolver.lookupTopLevel v.defaultChannelType v.project state with
    | (none, state) => (.error (.missingDefaultChannel v.defaultChannelType), state)
    | (some info, state) => (.ok (.ok info), state)

end Validator

end NedCheck
