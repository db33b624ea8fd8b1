import FirewallLists.Http
import FirewallLists.Main
import FirewallLists.Proofs.Activity
import FirewallLists.Proofs.Balance
import FirewallLists.Proofs.Batch
import FirewallLists.Proofs.Bounds
import FirewallLists.Proofs.Canonical
import FirewallLists.Proofs.Cleanup
import FirewallLists.Proofs.Credentials
import FirewallLists.Proofs.Deletion
import FirewallLists.Proofs.Displacement
import FirewallLists.Proofs.Failure
import FirewallLists.Proofs.Keyword
import FirewallLists.Proofs.Lifetime
import FirewallLists.Proofs.Listening
import FirewallLists.Proofs.Memory
import FirewallLists.Proofs.Names
import FirewallLists.Proofs.Net.Agreement
import FirewallLists.Proofs.Overlap
import FirewallLists.Proofs.Refresh
import FirewallLists.Proofs.Removal
import FirewallLists.Proofs.Report
import FirewallLists.Proofs.Resync
import FirewallLists.Proofs.Signals
import FirewallLists.Proofs.Tenant.Paths
import FirewallLists.Proofs.Tenant.Reads
import FirewallLists.Proofs.Unread
import FirewallLists.Proofs.Walk
import FirewallLists.Service.Environment
import FirewallLists.Store.Column
import FirewallLists.Proofs.Json.Record
import FirewallLists.Proofs.Text.Wildcards
import FirewallLists.Proofs.Keyword
