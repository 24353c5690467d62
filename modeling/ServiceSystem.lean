import ServiceSystem.Database.Leaks
import ServiceSystem.Logging.Clock
import ServiceSystem.Logging.Escaping
import ServiceSystem.Logging.Filter
import ServiceSystem.Logging.Pipelines
import ServiceSystem.Metrics.Copies
import ServiceSystem.Metrics.Entries
import ServiceSystem.Metrics.Grouping
import ServiceSystem.Metrics.Mutexes
import ServiceSystem.Metrics.Scrapes
import ServiceSystem.Metrics.Uniqueness
import ServiceSystem.WebServer.Alone
import ServiceSystem.WebServer.Answers
import ServiceSystem.WebServer.Config
import ServiceSystem.WebServer.ContentTypes
import ServiceSystem.WebServer.Counts
import ServiceSystem.WebServer.Ledger
import ServiceSystem.WebServer.Passwords
import ServiceSystem.WebServer.Progress
import ServiceSystem.WebServer.Resubmission
import ServiceSystem.WebServer.RoundTrip
import ServiceSystem.WebServer.Startup
import ServiceSystem.WebServer.Statuses
