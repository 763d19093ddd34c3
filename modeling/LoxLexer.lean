import LoxLexer.Catalogue
import LoxLexer.Main
import LoxLexer.Proofs.Agreement
import LoxLexer.Proofs.ArgumentOrder
import LoxLexer.Proofs.CarriageReturn
import LoxLexer.Proofs.DebugRun
import LoxLexer.Proofs.Dump
import LoxLexer.Proofs.EncodedFile
import LoxLexer.Proofs.Invariant
import LoxLexer.Proofs.Joining
import LoxLexer.Proofs.JsonRoundTrip
import LoxLexer.Proofs.JsonValidity
import LoxLexer.Proofs.LineCount
import LoxLexer.Proofs.Listener
import LoxLexer.Proofs.NearestDouble
import LoxLexer.Proofs.NestedPrinting
import LoxLexer.Proofs.Outputs
import LoxLexer.Proofs.PlainNotation
import LoxLexer.Proofs.Respelling
import LoxLexer.Proofs.StrayMap
import LoxLexer.Proofs.Trivia
