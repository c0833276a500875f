import AdmissionGuard.Main
import AdmissionGuard.Proofs.Strikes
import AdmissionGuard.Proofs.Blocks
import AdmissionGuard.Proofs.Accounting
import AdmissionGuard.Proofs.Exempt
import AdmissionGuard.Proofs.Memory
import AdmissionGuard.Proofs.Application
import AdmissionGuard.Proofs.ClientKeys
import AdmissionGuard.Proofs.AdmissionRate
import AdmissionGuard.Proofs.SteadyClient
import AdmissionGuard.Proofs.Eviction
import AdmissionGuard.Proofs.TimeShift
import AdmissionGuard.Proofs.Denials
import AdmissionGuard.Proofs.Headers
import AdmissionGuard.Proofs.AuditLog
import AdmissionGuard.Proofs.Sources
import AdmissionGuard.Proofs.Forecast
import AdmissionGuard.Proofs.Burst
import AdmissionGuard.Proofs.Membership
import AdmissionGuard.Proofs.LoneClient
import AdmissionGuard.Proofs.Spellings
import AdmissionGuard.Proofs.Waiting
import AdmissionGuard.Proofs.Polling
import AdmissionGuard.Proofs.Sweeps
import AdmissionGuard.Proofs.Countdown
import AdmissionGuard.Proofs.Misreadings
import AdmissionGuard.Proofs.ShortenedBlocks
