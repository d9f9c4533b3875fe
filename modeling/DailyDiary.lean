import DailyDiary.Transition
import DailyDiary.PathTree
import DailyDiary.RegExp
import DailyDiary.Validation
import DailyDiary.Effects
import DailyDiary.Accounts
import DailyDiary.MemorySelection
import DailyDiary.MemoryList
import DailyDiary.PasswordAuthorisation
import DailyDiary.UserRows
import DailyDiary.Firebase
import DailyDiary.Grammar
import DailyDiary.MemoryIDs
import DailyDiary.MemoryEdits
import DailyDiary.SessionScreens
import DailyDiary.PasswordCheck
import DailyDiary.LastWriteWins
import DailyDiary.ProgressHud
import DailyDiary.PendingRequests
import DailyDiary.EditorOpenings
import DailyDiary.RegistrationAttempts
import DailyDiary.RegistrationAtomicity
import DailyDiary.MemoryOrigins
import DailyDiary.Isolation
import DailyDiary.PendingWrites
import DailyDiary.FirebaseDatabase.ChildChanges
import DailyDiary.FirebaseDatabase.DataEvents
import DailyDiary.FirebaseDatabase.EventCache
import DailyDiary.FirebaseDatabase.SyncTree
import DailyDiary.FirebaseDatabase.ChildAdded
import DailyDiary.FirebaseDatabase.ViewRuns
import DailyDiary.FirebaseDatabase.Watches
import DailyDiary.MemoryObserver
import DailyDiary.AuthBlocks
