import Mathlib.Data.Int.Order.Basic
import Mathlib.Data.Option.Basic
import Mathlib.Order.Basic

/-!
# Leases

A grantor gives one lease for a duration on its own clock: to a client when nobody has the lease, to
the client that has it, and to any client once it has run out. A client hears of its grant later,
notes the time, and trusts the note for a limit of its own.

`Vouched` relates a note to what the grantor holds: the note is at most `delay` after a grant, which
has run out or is still the client's (`Backed`). Time that passes, grants to any client and releases
of other clients keep it. A client whose note is vouched for and not older than the limit has the
lease when the limit and the delay together are at most the duration (`Vouched.has_lease`), so two
such clients are one (`Vouched.client_unique`). -/

set_option autoImplicit false
set_option relaxedAutoImplicit false

namespace RocketMQClient.Library

/-- The client that has the lease, and when it was given or renewed last. -/
structure Lease (Client : Type*) where
  client : Client
  since : ℤ
  deriving DecidableEq

namespace Lease

variable {Client : Type*} {duration delay limit now later granted noted : ℤ}
  {held : Option (Lease Client)} {client other : Client}

/-- The grantor may give the lease to a client. -/
def Free (duration now : ℤ) (held : Option (Lease Client)) (client : Client) : Prop :=
  ∀ lease ∈ held, lease.client = client ∨ duration < now - lease.since

instance [DecidableEq Client] : Decidable (Free duration now held client) :=
  inferInstanceAs (Decidable (∀ lease ∈ held, _))

/-- A client gives the lease back, if it is its own. -/
def release [DecidableEq Client] (held : Option (Lease Client)) (client : Client) :
    Option (Lease Client) :=
  held.filter fun lease ↦ lease.client ≠ client

/-- A grant has run out, or the client still has the lease. -/
def Backed (duration now : ℤ) (held : Option (Lease Client)) (client : Client) (granted : ℤ) :
    Prop :=
  granted ≤ now ∧
    (duration < now - granted ∨ ∃ lease ∈ held, lease.client = client ∧ granted ≤ lease.since)

/-- A time that the client noted at most `delay` after a grant. -/
def Vouched (duration delay now : ℤ) (held : Option (Lease Client)) (client : Client) (noted : ℤ) :
    Prop :=
  ∃ granted, noted ≤ granted + delay ∧ Backed duration now held client granted

/-! ### What keeps a grant backed -/

theorem backed_grant : Backed duration now (some ⟨client, now⟩) client now :=
  ⟨le_rfl, Or.inr ⟨_, rfl, rfl, le_rfl⟩⟩

namespace Backed

theorem pass (hbacked : Backed duration now held client granted) (hlater : now ≤ later) :
    Backed duration later held client granted := by
  refine ⟨hbacked.1.trans hlater, hbacked.2.imp_left fun hout ↦ ?_⟩
  omega

/-- The lease goes to a client, maybe to another one. -/
theorem grant (hbacked : Backed duration now held client granted)
    (hfree : Free duration now held other) :
    Backed duration now (some ⟨other, now⟩) client granted := by
  refine ⟨hbacked.1, ?_⟩
  rcases hbacked.2 with hout | ⟨lease, hlease, rfl, hsince⟩
  · exact Or.inl hout
  · rcases hfree lease hlease with hsame | hout
    · exact Or.inr ⟨_, rfl, hsame.symm, hbacked.1⟩
    · exact Or.inl (by omega)

theorem release [DecidableEq Client] (hbacked : Backed duration now held client granted)
    (hother : client ≠ other) : Backed duration now (release held other) client granted := by
  refine ⟨hbacked.1, hbacked.2.imp_right ?_⟩
  rintro ⟨lease, hlease, rfl, hsince⟩
  exact ⟨lease, Option.mem_filter_iff.mpr ⟨hlease, decide_eq_true hother⟩, rfl, hsince⟩

end Backed

/-! ### What a client may trust -/

namespace Vouched

/-- The client hears of a grant. -/
theorem note (hbacked : Backed duration now held client granted) (htimely : now ≤ granted + delay) :
    Vouched duration delay now held client now :=
  ⟨granted, htimely, hbacked⟩

theorem pass (hvouched : Vouched duration delay now held client noted) (hlater : now ≤ later) :
    Vouched duration delay later held client noted :=
  hvouched.imp fun _ hgranted ↦ ⟨hgranted.1, hgranted.2.pass hlater⟩

theorem grant (hvouched : Vouched duration delay now held client noted)
    (hfree : Free duration now held other) :
    Vouched duration delay now (some ⟨other, now⟩) client noted :=
  hvouched.imp fun _ hgranted ↦ ⟨hgranted.1, hgranted.2.grant hfree⟩

theorem release [DecidableEq Client] (hvouched : Vouched duration delay now held client noted)
    (hother : client ≠ other) :
    Vouched duration delay now (Lease.release held other) client noted :=
  hvouched.imp fun _ hgranted ↦ ⟨hgranted.1, hgranted.2.release hother⟩

/-- A note that is not older than the limit: the client has the lease, and it has not run out. -/
theorem has_lease (hvouched : Vouched duration delay now held client noted)
    (hfresh : now - noted ≤ limit) (hlimit : limit + delay ≤ duration) :
    ∃ lease ∈ held, lease.client = client ∧ now - lease.since ≤ duration := by
  obtain ⟨granted, hnoted, -, hout | ⟨lease, hlease, hclient, hsince⟩⟩ := hvouched
  · omega
  · exact ⟨lease, hlease, hclient, by omega⟩

theorem client_unique {otherNoted : ℤ} (hvouched : Vouched duration delay now held client noted)
    (hother : Vouched duration delay now held other otherNoted) (hfresh : now - noted ≤ limit)
    (hotherFresh : now - otherNoted ≤ limit) (hlimit : limit + delay ≤ duration) :
    client = other := by
  obtain ⟨lease, hlease, rfl, -⟩ := hvouched.has_lease hfresh hlimit
  obtain ⟨lease', hlease', rfl, -⟩ := hother.has_lease hotherFresh hlimit
  exact congrArg Lease.client (Option.mem_unique hlease hlease')

end Vouched

end Lease

end RocketMQClient.Library
