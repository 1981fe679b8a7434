import Zkpi.AdaptorSignatures
import Zkpi.AuditReplays
import Zkpi.CohortRegistries
import Zkpi.IdentifiableAbort
import Zkpi.MaskedAnswers
import Zkpi.MontgomeryForm
import Zkpi.NoiseTables
import Zkpi.OneOfMany
import Zkpi.OptimisticProgress
import Zkpi.OptimisticUniqueness
import Zkpi.OutboxLifecycle
import Zkpi.PoolSequences
import Zkpi.PretradeAcknowledgements
import Zkpi.PriceLimit
import Zkpi.PublicationAccounting
import Zkpi.QuoteCompleteness
import Zkpi.QuoteTranscripts
import Zkpi.RateLimits
import Zkpi.RuleCircuits
import Zkpi.SealerAccountability
import Zkpi.SettlementHandoffs
import Zkpi.ShamirDecoding
import Zkpi.SharePrivacy
import Zkpi.SigmaBatches
import Zkpi.TradeBinding
import Zkpi.TypedWire
