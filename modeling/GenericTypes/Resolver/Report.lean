import GenericTypes.Config.Filter
import GenericTypes.Resolver

/-!
# Reporting events

Each event goes to a target of its own, at a level and under a fixed message.
What a search passes through is only for tracing; a member type left as declared
points at a mistake in the question, so it shows one level earlier.
-/

namespace GenericTypes

namespace Event

/-- The target that filter directives select an event by. -/
def target : Event → String
  | .captured _ _ _ => "genref.capture"
  | .searching _ _ => "genref.supertypes"
  | .unsubstituted _ _ => "genref.members"

/-- The level an event is reported at. -/
def level : Event → LogLevel
  | .captured _ _ _ | .searching _ _ => .trace
  | .unsubstituted _ _ => .debug

/-- The message of an event. -/
def message : Event → String
  | .captured _ _ _ => "allocated capture variable"
  | .searching _ _ => "searching supertype"
  | .unsubstituted _ _ =>
      "owner is not a subtype of the declaring class; member type left unsubstituted"

end Event

end GenericTypes
