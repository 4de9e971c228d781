import WorkspaceAuthz.Authz.ExpandReads
import WorkspaceAuthz.Authz.Inclusion
import WorkspaceAuthz.Authz.Listings
import WorkspaceAuthz.Authz.Scans
import WorkspaceAuthz.Authz.SetCompleteness
import WorkspaceAuthz.Authz.SetConditions
import WorkspaceAuthz.Connect.Gateway
import WorkspaceAuthz.Service.AuditLog
import WorkspaceAuthz.Service.Containers
import WorkspaceAuthz.Service.DriverRefinement
import WorkspaceAuthz.Service.EnrollmentRaces
import WorkspaceAuthz.Service.ExpandResponse
import WorkspaceAuthz.Service.FailedFirstUses
import WorkspaceAuthz.Service.FirstUseRaces
import WorkspaceAuthz.Service.Ownership
import WorkspaceAuthz.Service.ResolverConvergence
import WorkspaceAuthz.Service.SeatAccess
import WorkspaceAuthz.Service.SeatRaces
import WorkspaceAuthz.Service.Suspension
import WorkspaceAuthz.Service.ZapLogger
