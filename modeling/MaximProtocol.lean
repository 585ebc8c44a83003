import MaximProtocol.AuditTrail
import MaximProtocol.Relaxing
import MaximProtocol.Independence
import MaximProtocol.Violations
import MaximProtocol.Space
import MaximProtocol.Closing
import MaximProtocol.AgentIds
import MaximProtocol.Threshold
import MaximProtocol.Windows
import MaximProtocol.SeedBytes
import MaximProtocol.SeedScript
import MaximProtocol.Indexer
import MaximProtocol.Governance
import MaximProtocol.Treasury
import MaximProtocol.Faultless
import MaximProtocol.LongRun
import MaximProtocol.History
import MaximProtocol.Bystanders
import MaximProtocol.Exit
import MaximProtocol.Standing
import MaximProtocol.PaymentLoop
import MaximProtocol.Accesses
