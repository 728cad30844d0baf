import GuardrailPlatform.HonestMessages
import GuardrailPlatform.Contracts
import GuardrailPlatform.ReplyAgreement
import GuardrailPlatform.CommandStream
import GuardrailPlatform.AuditTrail
import GuardrailPlatform.Refusals
import GuardrailPlatform.PlanQuota
import GuardrailPlatform.TenantIsolation
import GuardrailPlatform.InputFidelity
import GuardrailPlatform.ProjectPages
import GuardrailPlatform.ConcurrentOwners
import GuardrailPlatform.GrantedRoles
import GuardrailPlatform.PageGuard
import GuardrailPlatform.BusPermissions
import GuardrailPlatform.AccessControl
import GuardrailPlatform.ReplayStore
import GuardrailPlatform.EntitlementsCache
import GuardrailPlatform.Invalidation
import GuardrailPlatform.UpstashLimiter
import GuardrailPlatform.RateIsolation
import GuardrailPlatform.CanonicalEncoding
import GuardrailPlatform.OrphanRows
import GuardrailPlatform.InvitationDelivery
import GuardrailPlatform.OrganizationUpdate
import GuardrailPlatform.MeteredUsage
import GuardrailPlatform.RoleColumn
import GuardrailPlatform.PlanLookup
import GuardrailPlatform.ServiceBoot
import GuardrailPlatform.UpstashReplay
import GuardrailPlatform.Decode
import GuardrailPlatform.EventDelivery
import GuardrailPlatform.Slugs
import GuardrailPlatform.AckGrants
import GuardrailPlatform.Transaction
import GuardrailPlatform.WorkspaceCreation
import GuardrailPlatform.KeyRace
import GuardrailPlatform.ProjectRace
import GuardrailPlatform.ContractSource
import GuardrailPlatform.OrgIdCheck
import GuardrailPlatform.SignupSlugs
import GuardrailPlatform.OperationNames
import GuardrailPlatform.VerifierSearch
import GuardrailPlatform.Credentials
import GuardrailPlatform.Denials
import GuardrailPlatform.ClientMirror
import GuardrailPlatform.Hops
import GuardrailPlatform.Navigation
import GuardrailPlatform.Sidebar
import GuardrailPlatform.Installation
import GuardrailPlatform.RoleProvenance
import GuardrailPlatform.SignIn
import GuardrailPlatform.AuthMount
import GuardrailPlatform.Tenancy
import GuardrailPlatform.SchemaTexts
import GuardrailPlatform.StoredRows
import GuardrailPlatform.UpgradePath
import GuardrailPlatform.Serving
import GuardrailPlatform.BillingReads
import GuardrailPlatform.Dialogue
import GuardrailPlatform.DispatchOrder
