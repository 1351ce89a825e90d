import CardRules.Document.Json
import CardRules.Main
import CardRules.Proofs.Firing
import CardRules.Proofs.Queues
import CardRules.Proofs.Registration
import CardRules.Proofs.Rest
import CardRules.Proofs.Forest.Growth
import CardRules.Proofs.Declarative
import CardRules.Proofs.Skeleton
import CardRules.Proofs.Parts
import CardRules.Proofs.Territory
import CardRules.Proofs.Confinement
import CardRules.Proofs.Failure
import CardRules.Proofs.Assembly
import CardRules.Proofs.Listening
import CardRules.Proofs.Hearing
import CardRules.Proofs.Subscriptions
import CardRules.Proofs.Expansion
import CardRules.Proofs.Mirroring
import CardRules.Proofs.Synchrony
import CardRules.Proofs.Guises
import CardRules.Proofs.ByHand
import CardRules.Proofs.Pumping
import CardRules.Proofs.Precedence
import CardRules.Proofs.Forest.Hushing
import CardRules.Proofs.Hushing
import CardRules.Proofs.Passivity
import CardRules.Proofs.Forest.Agreement
import CardRules.Proofs.Outline
import CardRules.Proofs.Locality
import CardRules.Proofs.Commuting
import CardRules.Proofs.Emptying
import CardRules.Proofs.Exchange
import CardRules.Proofs.Workshop
import CardRules.Proofs.Crafting
import CardRules.Proofs.Unfolding
import CardRules.Proofs.RuleTable
import CardRules.Proofs.Grafting
import CardRules.Proofs.Nesting
import CardRules.Proofs.Amending
import CardRules.Proofs.Copies
import CardRules.Proofs.Forest.Climbing
import CardRules.Proofs.Regrafting
import CardRules.Proofs.Releasing
import CardRules.Proofs.Binary64
import CardRules.Proofs.Closeness
import CardRules.Proofs.Vetting
import CardRules.Proofs.Filing
import CardRules.Proofs.Forest.Loops
import CardRules.Proofs.Tuning
import CardRules.Proofs.Labelling
