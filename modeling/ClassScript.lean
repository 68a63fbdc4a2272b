import ClassScript.Main
import ClassScript.Proofs.ParserShape
import ClassScript.Proofs.ParserAgreement
import ClassScript.Proofs.Places
import ClassScript.Proofs.CheckTrace
import ClassScript.Proofs.BindingAgreement
import ClassScript.Proofs.ReadsFound
import ClassScript.Proofs.GlobalFrames
import ClassScript.Proofs.JoinedRuns
import ClassScript.Proofs.TidyPrograms
import ClassScript.Proofs.Overrides
import ClassScript.Proofs.DefinedProperties
import ClassScript.Proofs.LexicalSuper
import ClassScript.Proofs.Construction
import ClassScript.Proofs.CompletedCalls
import ClassScript.Proofs.LosslessScan
import ClassScript.Proofs.RescannedTokens
import ClassScript.Proofs.ParserRecovery
import ClassScript.Proofs.EndOfSource
import ClassScript.Proofs.PrintedPrograms
import ClassScript.Proofs.LoopMeaning
import ClassScript.Proofs.CutOutput
import ClassScript.Proofs.NameWalks
import ClassScript.Proofs.ClassForests
import ClassScript.Proofs.Repetition
import ClassScript.Proofs.RestoredContexts
import ClassScript.Proofs.MemberTables
import ClassScript.Proofs.UniqueUses
