import GrevirPeripherals.ClickReference
import GrevirPeripherals.Debounce
import GrevirPeripherals.InterruptDiagnosis
import GrevirPeripherals.InterruptPlanCheck
import GrevirPeripherals.OwnerDiagnosis
import GrevirPeripherals.OwnerPresentation
import GrevirPeripherals.PwmAccuracy
import GrevirPeripherals.PwmDiagnosis
import GrevirPeripherals.PwmFrontEnd
import GrevirPeripherals.PwmPresentation
import GrevirPeripherals.TimePolling
import GrevirPeripherals.CheckedExecution
import GrevirPeripherals.PwmFractionRounds
import GrevirPeripherals.PwmReachability
import GrevirPeripherals.PwmCandidateSorting
import GrevirPeripherals.PwmCanonicalModel
import GrevirPeripherals.InterruptFirstDefect
import GrevirPeripherals.CallRuns
import GrevirPeripherals.FinitePolling
import GrevirPeripherals.CellStore
import GrevirPeripherals.StorageRegion
import GrevirPeripherals.PwmSafeArithmetic
import GrevirPeripherals.PwmSafeModel
import GrevirPeripherals.PwmSafety
import GrevirPeripherals.PwmDeclarations
import GrevirPeripherals.ChoiceProblems
import GrevirPeripherals.PwmApplication
import GrevirPeripherals.PwmVerdict
import GrevirPeripherals.PwmRelaxation
import GrevirPeripherals.GpioPins
import GrevirPeripherals.OwnerVerdict
import GrevirPeripherals.OwnerApplication
import GrevirPeripherals.OwnerRelaxation
import GrevirPeripherals.InterruptPruning
import GrevirPeripherals.LatestValue
import GrevirPeripherals.DebouncedButton
import GrevirPeripherals.EventDelivery
import GrevirPeripherals.PowerLoss
import GrevirPeripherals.CheckedExchange
import GrevirPeripherals.InterruptSafety
import GrevirPeripherals.CheckedValidation
import GrevirPeripherals.OwnerSafety
import GrevirPeripherals.InterruptRelaxation
import GrevirPeripherals.PunctualPolling
import GrevirPeripherals.InterruptEffort
import GrevirPeripherals.InterruptParts
import GrevirPeripherals.OwnerParts
import GrevirPeripherals.PwmParts
