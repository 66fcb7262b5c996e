import ConfigVetting.Document.Json
import ConfigVetting.Main
import ConfigVetting.Proofs.Cache.Announcing
import ConfigVetting.Proofs.Cache.Counting
import ConfigVetting.Proofs.Cache.Delivery
import ConfigVetting.Proofs.Cache.Upkeep
import ConfigVetting.Proofs.CommandLine.Answering
import ConfigVetting.Proofs.Document.Building
import ConfigVetting.Proofs.Document.Holding
import ConfigVetting.Proofs.Document.Merging
import ConfigVetting.Proofs.Document.Neighbours
import ConfigVetting.Proofs.Document.Remerging
import ConfigVetting.Proofs.Document.RoundTrip
import ConfigVetting.Proofs.Document.Uniting
import ConfigVetting.Proofs.Document.Valid
import ConfigVetting.Proofs.Document.WellFormed
import ConfigVetting.Proofs.Schema.Expansion
import ConfigVetting.Proofs.Schema.LeafPaths
import ConfigVetting.Proofs.Schema.MustRules
import ConfigVetting.Proofs.Schema.Reexpansion
import ConfigVetting.Proofs.Session.Deleting
import ConfigVetting.Proofs.Session.Expected
import ConfigVetting.Proofs.Session.Filling
import ConfigVetting.Proofs.Session.Limits
import ConfigVetting.Proofs.Session.Serving
import ConfigVetting.Proofs.Session.Sufficing
import ConfigVetting.Proofs.Staging.InTurn
import ConfigVetting.Proofs.Store.Fetching
import ConfigVetting.Proofs.World.Ownership
