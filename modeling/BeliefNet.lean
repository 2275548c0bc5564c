import BeliefNet.Main
import BeliefNet.Proofs.Expression.Meaning
import BeliefNet.Proofs.Inference.Exactness
import BeliefNet.Proofs.Inference.Marginals
import BeliefNet.Proofs.Inference.Readiness
import BeliefNet.Proofs.Inference.Wording
import BeliefNet.Proofs.Network.BuildOrder
import BeliefNet.Proofs.Network.Linking
import BeliefNet.Proofs.Network.Naming
import BeliefNet.Proofs.Network.Notification
import BeliefNet.Proofs.Probability.Addition
import BeliefNet.Proofs.Probability.AsDecimal
import BeliefNet.Proofs.Probability.DoubleRounding
import BeliefNet.Proofs.Probability.Nearest
import BeliefNet.Proofs.Query.Lexing
import BeliefNet.Proofs.Query.Lookahead
import BeliefNet.Proofs.Query.RoundTrip
import BeliefNet.Proofs.Store.Atomic
import BeliefNet.Proofs.Store.Graph
import BeliefNet.Proofs.Table.Selection
import BeliefNet.Store.Inference
import BeliefNet.Store.Summary
import BeliefNet.Store.Update
import BeliefNet.Proofs.Store.Calculation
import BeliefNet.Proofs.Store.Inference
