/-
The mailbox of a configuration.

* `Config.registry` — the transports of a configuration, each with its settings;
* `Config.mailbox` — the mailbox of an identity.
-/
import Mailroom.Mailbox.Basic
import Mailroom.Settings
import Mailroom.Transport.Matrix
import Mailroom.Transport.Simplex

namespace Mailroom.Config

/-- How messages over SimpleX are sent and received. -/
def simplexSettings (c : Config) : SimplexSettings :=
  ⟨c.settings.simplex.program, c.settings.simplex.group, c.settings.simplex.contact, c.spoolFolder⟩

/-- How messages over Matrix are sent and received. -/
def matrixSettings (c : Config) : MatrixSettings :=
  ⟨c.settings.matrix.room, c.credentialsFile, c.cursorFile⟩

/-- The transports of a configuration. -/
def registry (c : Config) : Registry Surroundings :=
  [localTransport Surroundings, simplex c.simplexSettings, matrix c.matrixSettings].foldl
    Registry.register .empty

/-- The mailbox of an identity. -/
def mailbox (c : Config) (identity : Identity) : Except ConfigFault (Mailbox Surroundings) := do
  return ⟨identity, c.registry, ← c.settings.selector, some c.storeFile⟩

end Mailroom.Config
