import HouseRules.Batch.Recording
import HouseRules.LogLevel
import HouseRules.Main
import HouseRules.Proofs.Batch.Trace
import HouseRules.Proofs.Docstring.Extraction
import HouseRules.Proofs.Environment.Coverage
import HouseRules.Proofs.Filter.Meaning
import HouseRules.Proofs.Python.Arithmetic
import HouseRules.Proofs.Python.Characters
import HouseRules.Proofs.Python.Rendering
import HouseRules.Proofs.Python.Signature
import HouseRules.Rule.Descriptor
import HouseRules.Proofs.Discovery.Fetched
import HouseRules.Proofs.Discovery.Functions
import HouseRules.Proofs.Discovery.Gathering
import HouseRules.Proofs.Discovery.Labels
import HouseRules.Proofs.Discovery.Visits
import HouseRules.Proofs.Fetch.Copying
import HouseRules.Proofs.Fetch.Mirror
import HouseRules.Proofs.Fetch.Preparation
import HouseRules.Proofs.Config.Layering
import HouseRules.Proofs.Environment.Lifecycle
import HouseRules.Proofs.Environment.Tracking
import HouseRules.Proofs.Fetch.Outcome
import HouseRules.Proofs.Fetch.Replacement
import HouseRules.Proofs.Json.RoundTrip
import HouseRules.Proofs.Rule.Arguments
import HouseRules.Proofs.Rule.Payload
import HouseRules.Proofs.Value.Lookup
import HouseRules.Proofs.Workspace.Apply
import HouseRules.Proofs.Workspace.Update
import HouseRules.Proofs.Discovery.Calls
import HouseRules.Proofs.Fetch.Output
import HouseRules.Proofs.Rule.Catalog
import HouseRules.Proofs.Rule.Listing
import HouseRules.Proofs.Cache.Containment
import HouseRules.Proofs.Discovery.Modules
import HouseRules.Proofs.Filter.Algebra
import HouseRules.Proofs.Rule.Descriptor
import HouseRules.Proofs.Filter.Translation
import HouseRules.Proofs.Python.Escapes
