import KernelDispatch.Main
import KernelDispatch.Manifest.Encode
import KernelDispatch.Json.Printer
import KernelDispatch.Proofs.Constants
import KernelDispatch.Proofs.TreeRouting
import KernelDispatch.Proofs.Specificity
import KernelDispatch.Proofs.Agreement
import KernelDispatch.Proofs.Separation
import KernelDispatch.Proofs.Symbol
import KernelDispatch.Proofs.Wrapper.Faithful
import KernelDispatch.Proofs.Insertion
import KernelDispatch.Proofs.Calls
import KernelDispatch.Proofs.Identity
import KernelDispatch.Proofs.Permutation
import KernelDispatch.Proofs.Resolution
import KernelDispatch.Proofs.Declarations
import KernelDispatch.Proofs.Encoding.Faithful
import KernelDispatch.Proofs.Run.KeepGoing
import KernelDispatch.Proofs.Chains
import KernelDispatch.Proofs.ArmOrder
import KernelDispatch.Proofs.Variables
import KernelDispatch.Proofs.Files.Parents
import KernelDispatch.Proofs.Files.Place
import KernelDispatch.Proofs.Run.Effects
import KernelDispatch.Proofs.Run.Lines
import KernelDispatch.Proofs.Run.Tracing
import KernelDispatch.Proofs.KernelMargins
import KernelDispatch.Proofs.StableOrder
import KernelDispatch.Proofs.OwnCall
import KernelDispatch.Proofs.DeadArms
import KernelDispatch.Proofs.DeadLeaves
import KernelDispatch.Proofs.Tautology
import KernelDispatch.Proofs.Consistency
import KernelDispatch.Proofs.Template.Verbatim
import KernelDispatch.Proofs.Expansion
import KernelDispatch.Proofs.Picks
import KernelDispatch.Proofs.Grouping
import KernelDispatch.Proofs.Wrapper.Guards
