import WebhookRelay.Transition
import WebhookRelay.Keyset
import WebhookRelay.Text
import WebhookRelay.Encoding
import WebhookRelay.Json
import WebhookRelay.Serialization
import WebhookRelay.Reloading
import WebhookRelay.ResponseModel
import WebhookRelay.Base64
import WebhookRelay.Datetime
import WebhookRelay.Models
import WebhookRelay.Security
import WebhookRelay.Relay
import WebhookRelay.Dispatcher
import WebhookRelay.Pool
import WebhookRelay.Routes
import WebhookRelay.System
import WebhookRelay.Requests
import WebhookRelay.Rows
import WebhookRelay.Intake
import WebhookRelay.Authentication
import WebhookRelay.Cleanup
import WebhookRelay.Acceptance
import WebhookRelay.Admission
import WebhookRelay.Background
import WebhookRelay.Middleware
import WebhookRelay.Workers
import WebhookRelay.Ownership
import WebhookRelay.Lifecycle
import WebhookRelay.Jobs
import WebhookRelay.Deliveries
import WebhookRelay.Consistency
import WebhookRelay.Widths
import WebhookRelay.Outcomes
import WebhookRelay.Connections
import WebhookRelay.Reads
import WebhookRelay.Pagination
import WebhookRelay.Traversals
import WebhookRelay.Readback
import WebhookRelay.Metrics
import WebhookRelay.Noninterference
import WebhookRelay.Preflight
import WebhookRelay.Reports
import WebhookRelay.Cursors
import WebhookRelay.Retention
import WebhookRelay.Labels
import WebhookRelay.Lifespans
import WebhookRelay.Responses
import WebhookRelay.Termination
import WebhookRelay.Draining
import WebhookRelay.Shutdown
import WebhookRelay.Evidence
import WebhookRelay.Linearization
import WebhookRelay.IntakeLog
import WebhookRelay.Answers
import WebhookRelay.Conservation
import WebhookRelay.Payloads
import WebhookRelay.Simulation
import WebhookRelay.LiveTraversals
import WebhookRelay.Lines
import WebhookRelay.Logging
import WebhookRelay.Enforcement
import WebhookRelay.Tracing
import WebhookRelay.Audit
import WebhookRelay.Forecast
import WebhookRelay.Schedules
import WebhookRelay.Fleet
import WebhookRelay.Crashes
