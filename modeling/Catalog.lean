import Catalog.FileTree
import Catalog.Main
import Catalog.Proofs.Construction
import Catalog.Proofs.Values
import Catalog.Request.Forms
import Catalog.Proofs.Decoding
import Catalog.Proofs.Bodies
import Catalog.Proofs.RepeatedKeys
import Catalog.Proofs.Printed
import Catalog.Proofs.Sources
import Catalog.Proofs.PrintedForms
import Catalog.Proofs.RoundTrip
import Catalog.Proofs.BuiltinDocuments
import Catalog.Proofs.Validity
import Catalog.Proofs.BuiltinContracts
import Catalog.Proofs.Agreement
import Catalog.Proofs.AlterationVerdicts
import Catalog.Proofs.IndependentAlterations
import Catalog.Proofs.AlterationEffects
import Catalog.Proofs.CheckedBuilds
import Catalog.Proofs.TypedReading
import Catalog.Proofs.RegistryRuns
import Catalog.Proofs.StrictChains
import Catalog.Proofs.StrictTightens
import Catalog.Proofs.DirectoryLoading
import Catalog.Proofs.NarrowedChecks
import Catalog.Proofs.Grammar
import Catalog.Proofs.Lexemes
import Catalog.Proofs.Routes
import Catalog.Proofs.WellFormedTexts
import Catalog.Proofs.ErrorClasses
import Catalog.Proofs.Offences
import Catalog.Proofs.MapRepeats
import Catalog.Proofs.QualifiedNames
import Catalog.Proofs.WeakerRules
import Catalog.Proofs.ValidationEntries
import Catalog.Proofs.StrictPlaces
import Catalog.Proofs.StrictSubschemas
import Catalog.Proofs.FileLimits
import Catalog.Proofs.DirectoryFaults
import Catalog.Proofs.PairLines
import Catalog.Proofs.RepeatedRemovals
import Catalog.Proofs.ScannedTexts
